import Mathlib.Algebra.Group.Nat.Defs
import Mathlib.Tactic.SplitIfs
import RuleFlow.Registry.Scope

/-!
# The order of bytes

Texts are in order just if their bytes in UTF-8 are (`bytes_lt_iff`). It comes down to two
characters in order (`utf8EncodeChar_lt`): either the first bytes tell how many bytes there are, or
both have as many and are compared six bits at a time (`spelled_lt`).
-/

namespace RuleFlow.Text

/-! ## Characters -/

/-- The last byte of a character that has several: six bits of its number. -/
def lastByte (n : Nat) : UInt8 := .ofNat (n % 0x40 + 0x80)

/-- A number as a byte with a mark and some more bytes. -/
def spelled (bound mark : Nat) : Nat → Nat → List UInt8
  | 0, n => [.ofNat (n % bound + mark)]
  | more + 1, n => spelled bound mark more (n / 0x40) ++ [lastByte n]

theorem ofNat_cons_lt {m n : Nat} (h : m < n) (hn : n < 0x100) (as bs : List UInt8) :
    UInt8.ofNat m :: as < UInt8.ofNat n :: bs := by
  refine List.cons_lt_cons_iff.2 (.inl ?_)
  rw [UInt8.lt_iff_toNat_lt, UInt8.toNat_ofNat', UInt8.toNat_ofNat']
  omega

theorem spelled_lt (bound mark more : Nat) {m n : Nat} (hmark : bound + mark ≤ 0x100)
    (h : m < n) (hn : n < bound * 0x40 ^ more) (as bs : List UInt8) :
    spelled bound mark more m ++ as < spelled bound mark more n ++ bs := by
  induction more generalizing m n as bs with
  | zero =>
    have hn' : n < bound := by simpa using hn
    rw [spelled, spelled, Nat.mod_eq_of_lt hn', Nat.mod_eq_of_lt (Nat.lt_trans h hn')]
    exact ofNat_cons_lt (by omega) (by omega) as bs
  | succ more ih =>
    rw [spelled, spelled, List.append_assoc, List.append_assoc]
    rcases Nat.lt_or_ge (m / 0x40) (n / 0x40) with hlt | hge
    · have hn' : n / 0x40 < bound * 0x40 ^ more := by
        rw [Nat.div_lt_iff_lt_mul (by decide), Nat.mul_assoc, ← Nat.pow_succ]
        exact hn
      exact ih hlt hn' _ _
    · have heq : m / 0x40 = n / 0x40 := by omega
      rw [heq]
      exact List.append_left_lt (ofNat_cons_lt (by omega) (by omega) as bs)

/-- The bytes of a character come before those of a greater one, whatever follows them. -/
theorem utf8EncodeChar_lt {c d : Char} (h : c < d) (as bs : List UInt8) :
    String.utf8EncodeChar c ++ as < String.utf8EncodeChar d ++ bs := by
  have hlt : c.val.toNat < d.val.toNat := h
  have hd : d.val.toNat < 0x110000 := by
    have hvalid : d.val.toNat.isValidChar := d.valid
    unfold Nat.isValidChar at hvalid
    omega
  unfold String.utf8EncodeChar
  generalize c.val.toNat = m at hlt
  generalize d.val.toNat = n at hlt hd
  have htwo (k : Nat) : k / 0x1000 = k / 0x40 / 0x40 := by omega
  have hthree (k : Nat) : k / 0x40000 = k / 0x40 / 0x40 / 0x40 := by omega
  simp only [htwo, hthree]
  -- Where one character has more bytes than the other, the first bytes differ.
  split
  · split_ifs <;> exact ofNat_cons_lt (by omega) (by omega) _ _
  split
  · split_ifs
    · omega
    · exact spelled_lt 0x20 0xc0 1 (by decide) hlt (by omega) as bs
    · exact ofNat_cons_lt (by omega) (by omega) _ _
    · exact ofNat_cons_lt (by omega) (by omega) _ _
  split
  · split_ifs
    · omega
    · omega
    · exact spelled_lt 0x10 0xe0 2 (by decide) hlt (by omega) as bs
    · exact ofNat_cons_lt (by omega) (by omega) _ _
  · split_ifs
    · omega
    · omega
    · omega
    · exact spelled_lt 0x08 0xf0 3 (by decide) hlt (by omega) as bs

/-! ## Texts -/

/-- The bytes of a text in UTF-8. -/
def bytes (s : String) : List UInt8 := s.toByteArray.data.toList

theorem bytes_eq_flatMap (s : String) : bytes s = s.toList.flatMap String.utf8EncodeChar := by
  rw [bytes, ← String.utf8Encode_toList, List.utf8Encode, List.toList_data_toByteArray]

theorem flatMap_utf8EncodeChar_lt {cs ds : List Char} (h : List.Lex (· < ·) cs ds) :
    cs.flatMap String.utf8EncodeChar < ds.flatMap String.utf8EncodeChar := by
  induction h with
  | @nil d ds =>
    have hne : (d :: ds).flatMap String.utf8EncodeChar ≠ [] := by
      simp [String.utf8EncodeChar_ne_nil]
    obtain ⟨b, bs, hbytes⟩ := List.exists_cons_of_ne_nil hne
    rw [hbytes]
    exact .nil
  | rel h =>
    rw [List.flatMap_cons, List.flatMap_cons]
    exact utf8EncodeChar_lt h _ _
  | cons _ ih =>
    rw [List.flatMap_cons, List.flatMap_cons]
    exact List.append_left_lt ih

theorem bytes_lt_of_lt {p q : String} (h : p < q) : bytes p < bytes q := by
  rw [bytes_eq_flatMap, bytes_eq_flatMap]
  exact flatMap_utf8EncodeChar_lt h

theorem bytes_lt_iff {p q : String} : bytes p < bytes q ↔ p < q := by
  refine ⟨fun h => ?_, bytes_lt_of_lt⟩
  by_cases hpq : p < q
  · exact hpq
  by_cases hqp : q < p
  · exact absurd (bytes_lt_of_lt hqp) (List.lt_asymm h)
  · obtain rfl : p = q := String.le_antisymm (String.not_lt.1 hqp) (String.not_lt.1 hpq)
    exact absurd h (List.lt_irrefl _)

end RuleFlow.Text
