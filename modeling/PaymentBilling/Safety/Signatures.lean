import PaymentBilling.Webhooks.Hmac

/-!
# Safety.Signatures

The signatures that are accepted.

The check compares decoded bytes.  Decoding ends silently at the first two
characters that are not a byte, so what follows them is not compared at all.
-/

namespace PaymentBilling

/-! ## Digits -/

/-- Digits are ASCII characters. -/
theorem toNat_lt_of_hexDigit {c : Char} {n : Nat} (h : hexDigit c = some n) : c.toNat < 128 := by
  unfold hexDigit at h
  split at h
  · next hdigit =>
    have hle : c.toNat ≤ 57 := by simp [Char.isDigit] at hdigit; exact hdigit.2
    omega
  split at h
  · next hlower =>
    have hle : c.toNat ≤ 102 := hlower.2
    omega
  split at h
  · next hupper =>
    have hle : c.toNat ≤ 70 := hupper.2
    omega
  · cases h

/-- Nothing else becomes an ASCII character in lower case. -/
theorem toNat_lt_of_toLower {c : Char} (h : c.toLower.toNat < 128) : c.toNat < 128 := by
  unfold Char.toLower at h
  split at h
  · next hupper =>
    have hle : c.toNat ≤ 90 := hupper.2
    omega
  · exact h

theorem hexDigit_ascii : ∀ k < 128, ∀ n < 16, (hexDigit (Char.ofNat k) = some n ↔
    (Char.ofNat k).toLower = Nat.digitChar n) := by
  decide +kernel

theorem hexDigit_lt_ascii : ∀ k < 128, ∀ n ∈ hexDigit (Char.ofNat k), n < 16 := by
  decide +kernel

theorem digitChar_ascii : ∀ n < 16, (Nat.digitChar n).toNat < 128 := by decide

/-- A digit of either case has the value of its lower-case form. -/
theorem hexDigit_eq_some {c : Char} {n : Nat} :
    hexDigit c = some n ↔ n < 16 ∧ c.toLower = Nat.digitChar n := by
  constructor
  · intro h
    have hc := toNat_lt_of_hexDigit h
    rw [← Char.ofNat_toNat c] at h ⊢
    have hn := hexDigit_lt_ascii c.toNat hc n h
    exact ⟨hn, (hexDigit_ascii c.toNat hc n hn).mp h⟩
  · rintro ⟨hn, h⟩
    have hc : c.toNat < 128 := toNat_lt_of_toLower (h ▸ digitChar_ascii n hn)
    rw [← Char.ofNat_toNat c] at h ⊢
    exact (hexDigit_ascii c.toNat hc n hn).mpr h

/-! ## Bytes -/

@[simp] theorem hexOfBytes_cons (b : UInt8) (bytes : List UInt8) :
    hexOfBytes (b :: bytes) =
      Nat.digitChar (b.toNat / 16) :: Nat.digitChar (b.toNat % 16) :: hexOfBytes bytes := rfl

theorem length_hexOfBytes (bytes : List UInt8) : (hexOfBytes bytes).length = 2 * bytes.length := by
  induction bytes with
  | nil => rfl
  | cons b bytes ih => simp [ih]; omega

/-- Digits of either case are decoded, and then what follows them. -/
theorem bytesOfHex_append {digits rest : List Char} {bytes : List UInt8}
    (h : digits.map Char.toLower = hexOfBytes bytes) :
    bytesOfHex (digits ++ rest) = bytes ++ bytesOfHex rest := by
  induction bytes generalizing digits with
  | nil =>
      obtain rfl := List.map_eq_nil_iff.mp h
      rfl
  | cons b bytes ih =>
      have hb := b.toNat_lt
      match digits with
      | [] => cases h
      | [_] => simp at h
      | c :: d :: digits =>
          simp only [List.map_cons, hexOfBytes_cons, List.cons.injEq] at h
          have hc : hexDigit c = some (b.toNat / 16) := hexDigit_eq_some.mpr ⟨by omega, h.1⟩
          have hd : hexDigit d = some (b.toNat % 16) := hexDigit_eq_some.mpr ⟨by omega, h.2.1⟩
          have hbyte : UInt8.ofNat (16 * (b.toNat / 16) + b.toNat % 16) = b := by
            rw [Nat.div_add_mod, UInt8.ofNat_toNat]
          simp only [List.cons_append, bytesOfHex, hc, hd, hbyte, ih h.2.2]

/-- What is decoded are digits, up to characters that start no byte. -/
theorem exists_of_bytesOfHex (cs : List Char) : ∃ digits rest, cs = digits ++ rest ∧
    digits.map Char.toLower = hexOfBytes (bytesOfHex cs) ∧ bytesOfHex rest = [] := by
  induction cs using bytesOfHex.induct with
  | case1 c d cs m n hc hd ih =>
      obtain ⟨digits, rest, hcs, hdigits, hrest⟩ := ih
      obtain ⟨hm, hc'⟩ := hexDigit_eq_some.mp hc
      obtain ⟨hn, hd'⟩ := hexDigit_eq_some.mp hd
      refine ⟨c :: d :: digits, rest, by rw [hcs]; rfl, ?_, hrest⟩
      have hbyte : (UInt8.ofNat (16 * m + n)).toNat = 16 * m + n := by
        rw [UInt8.toNat_ofNat_of_lt']
        simp only [UInt8.size]
        omega
      have hhigh : (16 * m + n) / 16 = m := by omega
      have hlow : (16 * m + n) % 16 = n := by omega
      simp only [bytesOfHex, hc, hd, List.map_cons, hexOfBytes_cons, hbyte, hhigh, hlow, hc', hd', hdigits]
  | case2 c d cs hnone =>
      have hnil : bytesOfHex (c :: d :: cs) = [] := by
        unfold bytesOfHex
        split
        · next m n hc hd => exact (hnone m n hc hd).elim
        · rfl
      exact ⟨[], c :: d :: cs, rfl, by rw [hnil]; rfl, hnil⟩
  | case3 cs hshort =>
      have hnil : bytesOfHex cs = [] := by
        unfold bytesOfHex
        split
        · next c d cs => exact (hshort c d cs rfl).elim
        · rfl
      exact ⟨[], cs, rfl, by rw [hnil]; rfl, hnil⟩

/-! ## Signatures -/

/-- The signature of the body, in either case, with something behind it that
starts no byte. -/
def Padded (expected signature : String) : Prop :=
  ∃ digits rest, rest ≠ [] ∧ signature.toList = digits ++ rest ∧
    digits.map Char.toLower = expected.toList ∧ bytesOfHex rest = []

section Signatures

variable {hmacSha256 : HmacSha256} {rawBody : List UInt8} {secret signature : String}

theorem toLower_hexOfBytes (bytes : List UInt8) :
    (hexOfBytes bytes).map Char.toLower = hexOfBytes bytes := by
  have hdigit : ∀ n < 16, (Nat.digitChar n).toLower = Nat.digitChar n := by decide
  induction bytes with
  | nil => rfl
  | cons b bytes ih =>
      have hb := b.toNat_lt
      simp only [hexOfBytes_cons, List.map_cons, ih, hdigit (b.toNat / 16) (by omega),
        hdigit (b.toNat % 16) (by omega)]

/-- The signature that is expected decodes to the digest. -/
theorem bytesOfHex_signHmac : bytesOfHex (signHmac hmacSha256 rawBody secret).toList =
    hmacSha256 rawBody secret := by
  have h : bytesOfHex (hexOfBytes (hmacSha256 rawBody secret) ++ []) =
      hmacSha256 rawBody secret ++ bytesOfHex [] := bytesOfHex_append (toLower_hexOfBytes _)
  have hnil : bytesOfHex [] = [] := rfl
  rw [signHmac, String.toList_ofList, ← List.append_nil (hexOfBytes _), h, hnil, List.append_nil]

/-- What is accepted is the expected signature up to case, and what follows it
is not looked at unless it starts a byte. -/
theorem verifyHmac_eq_true (hlength : (hmacSha256 rawBody secret).length = 32) :
    verifyHmac hmacSha256 rawBody (some signature) secret = true ↔
      ∃ digits rest, signature.toList = digits ++ rest ∧
        digits.map Char.toLower = (signHmac hmacSha256 rawBody secret).toList ∧
        bytesOfHex rest = [] := by
  have hverify : verifyHmac hmacSha256 rawBody (some signature) secret = true ↔
      hmacSha256 rawBody secret = bytesOfHex signature.toList := by
    unfold verifyHmac
    by_cases hempty : signature = ""
    · have hne : hmacSha256 rawBody secret ≠ [] := by
        intro h
        rw [h] at hlength
        cases hlength
      subst hempty
      exact ⟨nofun, fun h => (hne h).elim⟩
    · simp only [if_neg hempty, decide_eq_true_eq]
  rw [hverify, signHmac, String.toList_ofList]
  constructor
  · intro h
    rw [h]
    exact exists_of_bytesOfHex signature.toList
  · rintro ⟨digits, rest, hsignature, hdigits, hrest⟩
    rw [hsignature, bytesOfHex_append hdigits, hrest, List.append_nil]

/-- The check accepts exactly the signature of the body, in either case, unless
something follows it that starts no byte. -/
theorem verifyHmac_accepts (hmacSha256 : HmacSha256)
    (hlength : ∀ rawBody secret, (hmacSha256 rawBody secret).length = 32) (rawBody : List UInt8)
    (secret signature : String) :
    (verifyHmac hmacSha256 rawBody (some signature) secret = true ↔
        signature.toList.map Char.toLower = (signHmac hmacSha256 rawBody secret).toList) ↔
      ¬Padded (signHmac hmacSha256 rawBody secret) signature := by
  rw [verifyHmac_eq_true (hlength rawBody secret)]
  constructor
  · rintro h ⟨digits, rest, hne, hsignature, hdigits, hrest⟩
    have hsame := h.mp ⟨digits, rest, hsignature, hdigits, hrest⟩
    rw [hsignature, List.map_append, hdigits, List.append_right_eq_self, List.map_eq_nil_iff] at hsame
    exact hne hsame
  · intro hpadded
    constructor
    · rintro ⟨digits, rest, hsignature, hdigits, hrest⟩
      by_cases hne : rest = []
      · rw [hsignature, hne, List.append_nil, hdigits]
      · exact (hpadded ⟨digits, rest, hne, hsignature, hdigits, hrest⟩).elim
    · intro h
      exact ⟨signature.toList, [], by rw [List.append_nil], h, rfl⟩

end Signatures

/-- A digest of 32 bytes. -/
def fixedDigest : HmacSha256 := fun _ _ => List.replicate 32 171

/-- The expected signature in upper case. -/
def upperSignature : String :=
  String.ofList ((signHmac fixedDigest [] "secret").toList.map Char.toUpper)

theorem upperSignature_accepted :
    verifyHmac fixedDigest [] (some upperSignature) "secret" = true ↔
      upperSignature.toList.map Char.toLower = (signHmac fixedDigest [] "secret").toList := by
  refine (verifyHmac_accepts fixedDigest (fun _ _ => rfl) [] "secret" _).mpr ?_
  rintro ⟨digits, rest, hne, hsignature, hdigits, -⟩
  have hlong := congrArg List.length hsignature
  have hshort := congrArg List.length hdigits
  have hsame : upperSignature.toList.length = (signHmac fixedDigest [] "secret").toList.length := by
    decide +kernel
  rw [List.length_append] at hlong
  rw [List.length_map] at hshort
  exact hne (List.length_eq_zero_iff.mp (by omega))

/-- The signature is accepted with two characters behind it that are no digits. -/
theorem paddedSignature_accepted :
    verifyHmac fixedDigest [] (some (signHmac fixedDigest [] "secret" ++ "zz")) "secret" = true ∧
      (signHmac fixedDigest [] "secret" ++ "zz").toList.map Char.toLower ≠
        (signHmac fixedDigest [] "secret").toList := by
  decide +kernel

end PaymentBilling
