import Klite.Lib.Bytes

/-!
# Join tokens (internal/ca/token.go)

`K10`, the SHA-256 of the CA's PEM in hexadecimal, `::node:` and the secret. Strings are
bytes, so the secret may be anything. SHA-256 is any function to 32 bytes: the codec does not
depend on which.
-/

namespace Klite.Ca
open Lib

def tokenPrefix : String := "K10"

def tokenUser : String := "node"

def sha256Size : ℕ := 32

def caHashLen : ℕ := sha256Size * 2

def maxTokenLen : ℕ := 4096

structure Token where
  caHash : Bytes
  secret : Bytes

/-- What sha256.Sum256 returns. -/
def Digest : Type := { sum : Bytes // sum.length = sha256Size }

section Codec
variable (sum256 : Bytes → Digest)

def mintToken (caPEM secret : Bytes) : Bytes :=
  bytes tokenPrefix ++ Hex.encode (sum256 caPEM).1 ++ bytes "::" ++ bytes tokenUser ++ bytes ":" ++ secret

def parseToken (s : Bytes) : Except String Token :=
  if s.length > maxTokenLen then .error ("token exceeds " ++ toString maxTokenLen ++ " bytes")
  else
    match s.dropPrefix? (bytes tokenPrefix) with
    | none => .error ("token missing " ++ tokenPrefix ++ " prefix")
    | some rest =>
      match rest.dropInfix? (bytes "::") with
      | none => .error "token missing :: separator"
      | some (hash, cred) =>
        if hash.length ≠ caHashLen then
          .error ("ca hash must be " ++ toString caHashLen ++ " hex chars, got " ++ toString hash.length)
        else
          match Hex.decode hash with
          | .error e => .error ("ca hash: " ++ e.text)
          | .ok _ =>
            match cred.dropPrefix? (bytes tokenUser ++ bytes ":") with
            | none => .error ("token credential must be " ++ tokenUser ++ ":<secret>")
            | some secret =>
              if secret = [] then .error ("token credential must be " ++ tokenUser ++ ":<secret>")
              else .ok ⟨hash, secret⟩

def verifyCAHash (caPEM hash : Bytes) : Except String Unit :=
  match Hex.decode hash with
  | .error _ => .error "pinned ca hash is not a sha256 hex digest"
  | .ok want =>
    if want.length ≠ sha256Size then .error "pinned ca hash is not a sha256 hex digest"
    else if constantTimeCompare (sum256 caPEM).1 want ≠ 1 then
      .error "ca hash mismatch: server ca does not match join token"
    else .ok ()

end Codec

/-! ### The language of the tokens -/

/-- The token says that the CA has the hash and that the secret is the one after it. -/
structure Reads (t hash secret : Bytes) : Prop where
  shape : t = bytes "K10" ++ hash ++ bytes "::node:" ++ secret
  length : hash.length = 64
  digits : ∀ b ∈ hash, Hex.IsDigit b
  secret_ne : secret ≠ []

theorem colon_notMem {hash : Bytes} (h : ∀ b ∈ hash, Hex.IsDigit b) : (58 : UInt8) ∉ hash := by
  intro hc
  have hdigit := h 58 hc
  revert hdigit
  decide

theorem credential_bytes : bytes "::node:" = bytes "::" ++ (bytes tokenUser ++ bytes ":") := by decide

theorem separator_bytes : bytes "::" = [58, 58] := by decide

variable {t hash secret : Bytes}

theorem parseToken_of_reads (hlen : t.length ≤ 4096) (h : Reads t hash secret) : parseToken t = .ok ⟨hash, secret⟩ := by
  have hshape : t = bytes tokenPrefix ++ (hash ++ bytes "::" ++ (bytes tokenUser ++ bytes ":" ++ secret)) := by
    rw [h.shape, credential_bytes]
    simp [tokenPrefix]
  have hshort : ¬ t.length > maxTokenLen := Nat.not_lt.mpr hlen
  have hstart : t.dropPrefix? (bytes tokenPrefix) = some (hash ++ bytes "::" ++ (bytes tokenUser ++ bytes ":" ++ secret)) := by
    rw [hshape, dropPrefix_append]
  have hcut : (hash ++ bytes "::" ++ (bytes tokenUser ++ bytes ":" ++ secret)).dropInfix? (bytes "::") =
      some (hash, bytes tokenUser ++ bytes ":" ++ secret) := by
    rw [separator_bytes]
    exact dropInfix_append (colon_notMem h.digits) [58] _
  have hsize : ¬ hash.length ≠ caHashLen := not_not.mpr h.length
  have heven : hash.length % 2 = 0 := by
    rw [h.length]
  obtain ⟨sum, hsum⟩ := (Hex.decode_ok_iff hash).mpr ⟨heven, h.digits⟩
  simp only [parseToken, if_neg hshort, hstart, hcut, if_neg hsize, hsum, dropPrefix_append, if_neg h.secret_ne]

theorem reads_of_parseToken (h : parseToken t = .ok ⟨hash, secret⟩) : t.length ≤ 4096 ∧ Reads t hash secret := by
  simp only [parseToken] at h
  split at h
  · cases h
  · rename_i hlong
    have hshort : t.length ≤ 4096 := Nat.not_lt.mp hlong
    cases hstart : t.dropPrefix? (bytes tokenPrefix) with
    | none => simp [hstart] at h
    | some rest =>
      cases hcut : rest.dropInfix? (bytes "::") with
      | none => simp [hstart, hcut] at h
      | some parts =>
        obtain ⟨first, cred⟩ := parts
        by_cases hsize : first.length = caHashLen
        · cases hsum : Hex.decode first with
          | error e => simp [hstart, hcut, hsize, hsum] at h
          | ok sum =>
            cases hcred : cred.dropPrefix? (bytes tokenUser ++ bytes ":") with
            | none => simp [hstart, hcut, hsize, hsum, hcred] at h
            | some last =>
              by_cases hnil : last = []
              · simp [hstart, hcut, hsize, hsum, hcred, hnil] at h
              · have htoken : (⟨first, last⟩ : Token) = ⟨hash, secret⟩ := by
                  simpa [hstart, hcut, hsize, hsum, hcred, hnil] using h
                cases htoken
                have hdigits := ((Hex.decode_ok_iff hash).mp ⟨sum, hsum⟩).2
                refine ⟨hshort, ?_, hsize, hdigits, hnil⟩
                rw [eq_of_dropPrefix hstart, eq_of_dropInfix hcut, eq_of_dropPrefix hcred, credential_bytes]
                simp [tokenPrefix]
        · simp [hstart, hcut, hsize] at h

theorem parseToken_iff : parseToken t = .ok ⟨hash, secret⟩ ↔ t.length ≤ 4096 ∧ Reads t hash secret :=
  ⟨reads_of_parseToken, fun h => parseToken_of_reads h.1 h.2⟩

/-! ### The pin -/

section Pin
variable (sum256 : Bytes → Digest) (caPEM : Bytes)

theorem verifyCAHash_iff : verifyCAHash sum256 caPEM hash = .ok () ↔ Hex.decode hash = .ok (sum256 caPEM).1 := by
  cases hsum : Hex.decode hash with
  | error e => simp [verifyCAHash, hsum]
  | ok want =>
    by_cases heq : (sum256 caPEM).1 = want
    · subst heq
      have hsize := (sum256 caPEM).2
      have hcmp := (constantTimeCompare_iff (sum256 caPEM).1 _).mpr rfl
      simp [verifyCAHash, hsum, hsize, hcmp]
    · have hcmp : constantTimeCompare (sum256 caPEM).1 want ≠ 1 := mt (constantTimeCompare_iff _ _).mp heq
      have hne : want ≠ (sum256 caPEM).1 := Ne.symm heq
      simp only [verifyCAHash, hsum, if_pos hcmp, Except.ok.injEq, hne, iff_false]
      split
      · nofun
      · nofun

theorem mintToken_reads (h : secret ≠ []) : Reads (mintToken sum256 caPEM secret) (Hex.encode (sum256 caPEM).1) secret where
  shape := by
    rw [mintToken, credential_bytes]
    simp [tokenPrefix]
  length := by
    rw [Hex.encode_length, (sum256 caPEM).2]
    rfl
  digits := ((Hex.decode_ok_iff _).mp ⟨_, Hex.decode_encode _⟩).2
  secret_ne := h

end Pin

theorem Reads.unique {hash' secret' : Bytes} (h : Reads t hash secret) (h' : Reads t hash' secret') :
    hash = hash' ∧ secret = secret' := by
  have hshape : bytes "K10" ++ hash ++ bytes "::node:" ++ secret = bytes "K10" ++ hash' ++ bytes "::node:" ++ secret' :=
    h.shape.symm.trans h'.shape
  have hlen : hash.length = hash'.length := by
    rw [h.length, h'.length]
  simp only [List.append_assoc, List.append_cancel_left_eq] at hshape
  obtain ⟨rfl, hrest⟩ := List.append_inj hshape hlen
  exact ⟨rfl, List.append_cancel_left hrest⟩

/-- A minted token that is not too long parses to its secret and a hash that its CA is accepted for. `parseToken`
accepts exactly the tokens that have a reading, and a token has one reading at most. -/
theorem token_codec (sum256 : Bytes → Digest) :
    (∀ caPEM secret, secret ≠ [] → (mintToken sum256 caPEM secret).length ≤ 4096 →
      ∃ hash, parseToken (mintToken sum256 caPEM secret) = .ok ⟨hash, secret⟩ ∧ verifyCAHash sum256 caPEM hash = .ok ()) ∧
    (∀ t hash secret, parseToken t = .ok ⟨hash, secret⟩ ↔ t.length ≤ 4096 ∧ Reads t hash secret) ∧
    (∀ t hash secret hash' secret', Reads t hash secret → Reads t hash' secret' → hash = hash' ∧ secret = secret') := by
  refine ⟨?_, fun t hash secret => parseToken_iff, fun t hash secret hash' secret' => Reads.unique⟩
  intro caPEM secret hne hlen
  have hparse := parseToken_of_reads hlen (mintToken_reads sum256 caPEM hne)
  have hverify := (verifyCAHash_iff sum256 caPEM).mpr (Hex.decode_encode (sum256 caPEM).1)
  exact ⟨_, hparse, hverify⟩

def sameSum : Bytes → Digest := fun _ => ⟨List.replicate 32 0xab, rfl⟩

/-- The secret looks like the end of a token, and is the only one that can be read. -/
theorem token_codec_colons :
    let t := mintToken sameSum (bytes "pem") (bytes "a::node:b")
    (∃ hash, parseToken t = .ok ⟨hash, bytes "a::node:b"⟩ ∧ verifyCAHash sameSum (bytes "pem") hash = .ok ()) ∧
    ∀ hash secret, Reads t hash secret → secret = bytes "a::node:b" := by
  intro t
  obtain ⟨hmint, -, hone⟩ := token_codec sameSum
  have hne : bytes "a::node:b" ≠ [] := by decide
  have hlen : t.length ≤ 4096 := by decide
  refine ⟨hmint (bytes "pem") (bytes "a::node:b") hne hlen, ?_⟩
  intro hash secret hr
  exact (hone t _ _ _ _ hr (mintToken_reads sameSum (bytes "pem") hne)).2

end Klite.Ca
