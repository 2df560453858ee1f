import PostgressRs.Lib.Utf8

/-!
Authentication with `SCRAM-SHA-256` (`src/protocol/auth.rs`), with the module's own
`hmac_sha256`, `sha256` and `pbkdf2`.
-/

namespace PostgressRs.Protocol.ScramAuth

open PostgressRs.Lib.ByteBuffer
open PostgressRs.Lib.Utf8

section Verification

inductive AuthMethod where
  | trust
  | md5
  | scramSha256
deriving DecidableEq

structure AuthState where
  method : AuthMethod
  salt : Bytes
  serverNonce : String
  iterations : UInt32
deriving DecidableEq

structure ScramClientFinal where
  authMessage : String
  clientProof : Bytes
deriving DecidableEq

/-- `format!("{:016x}", 1234567890u64)` is a constant. -/
def startAuth (method : AuthMethod) : AuthState where
  method := method
  salt := (List.range 4).map fun i => UInt8.ofNat i * 7
  serverNonce := "00000000499602d2"
  iterations := 4096

/-- `xor`, and the loop of `pbkdf2` over two slices of one length. -/
def xor (a b : Bytes) : Bytes := List.zipWith (· ^^^ ·) a b

def hmacSha256 (key message : Bytes) : Bytes :=
  (List.range 32).map fun i => key.getD i 0 ^^^ message.getD i 0

def sha256 (input : Bytes) : Bytes :=
  input.zipIdx.foldl (fun hash entry => hash.modify (entry.2 % 32) (· + entry.1))
    (List.replicate 32 0)

/-- The rounds `1..iterations` of `pbkdf2`. -/
def pbkdf2Rounds (password : Bytes) : Nat → Bytes → Bytes → Bytes
  | 0, _, result => result
  | rounds + 1, u, result =>
      let u := hmacSha256 password u
      pbkdf2Rounds password rounds u (xor result u)

def pbkdf2 (password : String) (salt : Bytes) (iterations : UInt32) : Bytes :=
  let u := hmacSha256 (asBytes password) salt
  pbkdf2Rounds (asBytes password) (iterations.toNat - 1) u u

/-- `s.split(',').nth(n).unwrap_or("")`. -/
def part (s : String) (n : Nat) : String := String.ofList ((s.toList.splitOn ',').getD n [])

def authMessage (clientResponse : ScramClientFinal) : String :=
  "n,," ++ part clientResponse.authMessage 1 ++ "," ++ part clientResponse.authMessage 2

def verifyScram (self : AuthState) (clientResponse : ScramClientFinal) (password : String) :
    Bool :=
  let saltedPassword := pbkdf2 password self.salt self.iterations
  let clientKey := hmacSha256 saltedPassword (asBytes "Client Key")
  let storedKey := sha256 clientKey
  let clientSignature := hmacSha256 storedKey (asBytes (authMessage clientResponse))
  let clientProof := xor clientKey clientSignature
  clientProof = clientResponse.clientProof

end Verification

section Cancellation

theorem xor_assoc (a b c : Bytes) : xor (xor a b) c = xor a (xor b c) := by
  induction a generalizing b c with
  | nil => rfl
  | cons x a ih =>
      cases b with
      | nil => rfl
      | cons y b =>
          cases c with
          | nil => rfl
          | cons z c =>
              have htail := ih b c
              simp only [xor, List.zipWith_cons_cons] at htail ⊢
              rw [UInt8.xor_assoc, htail]

theorem xor_self (a : Bytes) : xor a a = List.replicate a.length 0 := by
  induction a with
  | nil => rfl
  | cons x a ih =>
      simp only [xor, List.zipWith_cons_cons, UInt8.xor_self] at ih ⊢
      rw [ih]
      rfl

theorem xor_zeros (a : Bytes) : xor a (List.replicate a.length 0) = a := by
  induction a with
  | nil => rfl
  | cons x a ih =>
      simp only [xor, List.length_cons, List.replicate_succ, List.zipWith_cons_cons,
        UInt8.xor_zero] at ih ⊢
      rw [ih]

@[simp] theorem length_hmacSha256 (key message : Bytes) : (hmacSha256 key message).length = 32 := by
  simp [hmacSha256]

/-- The message, cut or filled up to 32 bytes. -/
def padded (message : Bytes) : Bytes := hmacSha256 [] message

theorem getD_hmacSha256 (key message : Bytes) {i : Nat} (hi : i < 32) :
    (hmacSha256 key message).getD i 0 = key.getD i 0 ^^^ message.getD i 0 := by
  simp [hmacSha256, List.getD_eq_getElem?_getD, hi]

/-- A second round takes the password out again. -/
theorem hmacSha256_twice (key message : Bytes) :
    hmacSha256 key (hmacSha256 key message) = padded message := by
  rw [padded]
  refine List.map_congr_left fun i hi => ?_
  rw [getD_hmacSha256 key message (List.mem_range.mp hi), ← UInt8.xor_assoc, UInt8.xor_self]
  rfl

theorem hmacSha256_padded (key message : Bytes) :
    hmacSha256 key (padded message) = hmacSha256 key message := by
  refine List.map_congr_left fun i hi => ?_
  rw [padded, getD_hmacSha256 [] message (List.mem_range.mp hi), List.getD_nil, UInt8.zero_xor]

variable (password salt : Bytes)

/-- The terms of four rounds cancel. -/
theorem pbkdf2Rounds_four (rounds : Nat) {result : Bytes} (hlen : result.length = 32) :
    pbkdf2Rounds password (rounds + 4) (hmacSha256 password salt) result =
      pbkdf2Rounds password rounds (hmacSha256 password salt) result := by
  have hterms : ∀ a b : Bytes, a.length = 32 → b.length = 32 →
      xor (xor (xor (xor result a) b) a) b = result := by
    intro a b ha hb
    have hab : (xor a b).length = result.length := by
      rw [xor, List.length_zipWith, ha, hb, hlen]
      rfl
    rw [xor_assoc, xor_assoc result, xor_assoc, xor_self, hab, xor_zeros]
  simp only [pbkdf2Rounds, hmacSha256_twice, hmacSha256_padded]
  rw [hterms (padded salt) _ (length_hmacSha256 [] salt) (length_hmacSha256 password salt)]

theorem pbkdf2Rounds_three :
    pbkdf2Rounds password 3 (hmacSha256 password salt) (hmacSha256 password salt) =
      List.replicate 32 0 := by
  simp only [pbkdf2Rounds, hmacSha256_twice, hmacSha256_padded]
  have hlen : (xor (hmacSha256 password salt) (padded salt)).length = 32 := by
    rw [xor, List.length_zipWith, length_hmacSha256, padded, length_hmacSha256]
    rfl
  rw [xor_assoc, xor_self, hlen]

theorem pbkdf2Rounds_cancel (blocks : Nat) :
    pbkdf2Rounds password (4 * blocks + 3) (hmacSha256 password salt) (hmacSha256 password salt) =
      List.replicate 32 0 := by
  induction blocks with
  | zero => exact pbkdf2Rounds_three password salt
  | succ blocks ih =>
      rw [Nat.mul_succ, Nat.add_right_comm, pbkdf2Rounds_four password salt _
        (length_hmacSha256 password salt), ih]

/-- With 4096 iterations nothing of the password or the salt is left. -/
theorem pbkdf2_startAuth (password : String) (salt : Bytes) :
    pbkdf2 password salt 4096 = List.replicate 32 0 :=
  pbkdf2Rounds_cancel (asBytes password) salt 1023

end Cancellation

section Acceptance

variable (method : AuthMethod) (clientResponse : ScramClientFinal)

/-- The proof that is accepted for every password. -/
def universalProof : Bytes :=
  let clientKey := hmacSha256 (List.replicate 32 0) (asBytes "Client Key")
  xor clientKey (hmacSha256 (sha256 clientKey) (asBytes (authMessage clientResponse)))

theorem verifyScram_eq (password : String) :
    verifyScram (startAuth method) clientResponse password =
      decide (universalProof clientResponse = clientResponse.clientProof) := by
  have hsalted : pbkdf2 password (startAuth method).salt (startAuth method).iterations =
      List.replicate 32 0 := pbkdf2_startAuth password _
  rw [verifyScram, hsalted]
  rfl

end Acceptance

/-- For every message and any two passwords there is a response that is accepted
for both. -/
theorem verifyScram_ignores_password (method : AuthMethod) (message : String)
    (password₁ password₂ : String) :
    ¬∀ clientProof : Bytes,
      verifyScram (startAuth method) ⟨message, clientProof⟩ password₁ = true →
        verifyScram (startAuth method) ⟨message, clientProof⟩ password₂ = false := by
  intro hreject
  have haccept : ∀ password : String,
      verifyScram (startAuth method) ⟨message, universalProof ⟨message, []⟩⟩ password = true := by
    intro password
    rw [verifyScram_eq, decide_eq_true_eq]
    rfl
  have hrejected := hreject _ (haccept password₁)
  rw [haccept password₂] at hrejected
  cases hrejected

/-- The response with no message and the bytes of `n,,,` is accepted for `a` and for `b`. -/
theorem verifyScram_accepts_both :
    (asBytes "a").take 32 ≠ (asBytes "b").take 32 ∧
      verifyScram (startAuth .scramSha256)
          ⟨"", [0x6E, 0x2C, 0x2C, 0x2C] ++ List.replicate 28 0⟩ "a" = true ∧
      verifyScram (startAuth .scramSha256)
          ⟨"", [0x6E, 0x2C, 0x2C, 0x2C] ++ List.replicate 28 0⟩ "b" = true := by
  refine ⟨by decide, ?_, ?_⟩
  · rw [verifyScram_eq]
    decide
  · rw [verifyScram_eq]
    decide

end PostgressRs.Protocol.ScramAuth
