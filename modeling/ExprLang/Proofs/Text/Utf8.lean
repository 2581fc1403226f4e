import Mathlib.Data.List.Basic
import ExprLang.Proofs.Text.Lines
import ExprLang.Text.Utf8

/-!
# What lossy UTF-8 means

Bytes that encode text are decoded to this text. Where no character begins, the bytes that could still have begun one
are replaced, as many as there are, but at least one. `decodeLossy` gives the one text that these rules allow. ASCII
bytes always stand for themselves, and so bytes can be cut at them before they are decoded.

* `Continues`, `valueFrom` : the bytes after the first one of a character, and the number they make;
* `utf8EncodeChar_valueFrom`, `utf8EncodeChar_cases` : the bytes of a character;
* `Broken`, `Lossy` : the rules;
* `nextChar_utf8EncodeChar`, `exists_nextChar` : the rules for one character;
* `lossy_iff` : `decodeLossy` follows the rules, and nothing else does;
* `Lossy.eq_flatMap` : bytes in which nothing is replaced encode their text;
* `decodeLossy_append_cons`, `splitOn_decodeLossy`, `takeWhile_decodeLossy` : bytes cut at ASCII bytes.
-/

namespace ExprLang.Text

/-! ## The bytes of a character -/

/-- Whether the first byte is between `low` and `high`, and the others are between 0x80 and 0xBF. -/
def Continues (low high : UInt8) : List UInt8 → Prop
  | [] => True
  | b :: bs => (low ≤ b ∧ b ≤ high) ∧ Continues 0x80 0xBF bs

/-- The number that the bytes after the first one make of the bits before them. -/
def valueFrom (bits : Nat) (tail : List UInt8) : Nat := tail.foldl (fun n b => n * 64 + (b.toNat - 0x80)) bits

theorem Continues.of_append {low high : UInt8} {xs ys : List UInt8} (h : Continues low high (xs ++ ys)) :
    Continues low high xs := by
  induction xs generalizing low high with
  | nil => exact trivial
  | cons x xs ih => exact ⟨h.1, ih h.2⟩

/-- The first bytes fall into four classes. -/
theorem Lead.ofByte?_cases (b : UInt8) :
    ((b.toNat < 0xC2 ∨ 0xF5 ≤ b.toNat) ∧ Lead.ofByte? b = none) ∨
    ((0xC2 ≤ b.toNat ∧ b.toNat < 0xE0) ∧ Lead.ofByte? b = some ⟨b.toNat - 0xC0, 1, 0x80, 0xBF⟩) ∨
    ((0xE0 ≤ b.toNat ∧ b.toNat < 0xF0) ∧ Lead.ofByte? b = some
      ⟨b.toNat - 0xE0, 2, if b = 0xE0 then 0xA0 else 0x80, if b = 0xED then 0x9F else 0xBF⟩) ∨
    ((0xF0 ≤ b.toNat ∧ b.toNat < 0xF5) ∧ Lead.ofByte? b = some
      ⟨b.toNat - 0xF0, 3, if b = 0xF0 then 0x90 else 0x80, if b = 0xF4 then 0x8F else 0xBF⟩) := by
  simp only [Lead.ofByte?, UInt8.lt_iff_toNat_lt, UInt8.reduceToNat]
  split_ifs <;> simp <;> omega

theorem between_iff_toNat (x : UInt8) : 0x80 ≤ x ∧ x ≤ 0xBF ↔ 0x80 ≤ x.toNat ∧ x.toNat ≤ 0xBF := by
  simp [UInt8.le_iff_toNat_le]

theorem second_of_three_iff_toNat (b x : UInt8) :
    (if b = 0xE0 then 0xA0 else 0x80) ≤ x ∧ x ≤ (if b = 0xED then 0x9F else 0xBF) ↔
      (b.toNat = 0xE0 → 0xA0 ≤ x.toNat) ∧ (b.toNat = 0xED → x.toNat ≤ 0x9F) ∧ 0x80 ≤ x.toNat ∧ x.toNat ≤ 0xBF := by
  simp only [UInt8.le_iff_toNat_le, ← UInt8.toNat_inj]
  split_ifs <;> simp at * <;> omega

theorem second_of_four_iff_toNat (b x : UInt8) :
    (if b = 0xF0 then 0x90 else 0x80) ≤ x ∧ x ≤ (if b = 0xF4 then 0x8F else 0xBF) ↔
      (b.toNat = 0xF0 → 0x90 ≤ x.toNat) ∧ (b.toNat = 0xF4 → x.toNat ≤ 0x8F) ∧ 0x80 ≤ x.toNat ∧ x.toNat ≤ 0xBF := by
  simp only [UInt8.le_iff_toNat_le, ← UInt8.toNat_inj]
  split_ifs <;> simp at * <;> omega

theorem val_ofNat {n : Nat} (h : n < 0xD800 ∨ 0xDFFF < n ∧ n < 0x110000) : (Char.ofNat n).val.toNat = n := by
  rw [Char.ofNat, dif_pos h]
  rfl

theorem utf8EncodeChar_ofNat {b : UInt8} (h : b.toNat < 0x80) : String.utf8EncodeChar (Char.ofNat b.toNat) = [b] := by
  rw [String.utf8EncodeChar.eq_1, val_ofNat (by omega), if_pos (by omega), UInt8.ofNat_toNat]

/-- The bytes that a first byte asks for are those of a character. -/
theorem utf8EncodeChar_valueFrom {b : UInt8} {lead : Lead} {tail : List UInt8} (hb : Lead.ofByte? b = some lead)
    (htail : Continues lead.low lead.high tail) (hlength : tail.length = lead.more) :
    String.utf8EncodeChar (Char.ofNat (valueFrom lead.bits tail)) = b :: tail := by
  rcases Lead.ofByte?_cases b with ⟨-, h⟩ | ⟨hrange, h⟩ | ⟨hrange, h⟩ | ⟨hrange, h⟩
  · rw [h] at hb
    cases hb
  · rw [h, Option.some.injEq] at hb
    subst hb
    obtain ⟨x, rfl⟩ := List.length_eq_one_iff.1 hlength
    simp only [Continues, and_true, between_iff_toNat] at htail
    simp only [valueFrom, List.foldl_cons, List.foldl_nil]
    rw [String.utf8EncodeChar.eq_1, val_ofNat (by omega), if_neg (by omega), if_pos (by omega)]
    simp only [List.cons.injEq, ← UInt8.toNat_inj, UInt8.toNat_ofNat', and_true]
    omega
  · rw [h, Option.some.injEq] at hb
    subst hb
    obtain ⟨x, y, rfl⟩ := List.length_eq_two.1 hlength
    simp only [Continues, and_true, between_iff_toNat, second_of_three_iff_toNat] at htail
    simp only [valueFrom, List.foldl_cons, List.foldl_nil]
    rw [String.utf8EncodeChar.eq_1, val_ofNat (by omega), if_neg (by omega), if_neg (by omega), if_pos (by omega)]
    simp only [List.cons.injEq, ← UInt8.toNat_inj, UInt8.toNat_ofNat', and_true]
    omega
  · rw [h, Option.some.injEq] at hb
    subst hb
    obtain ⟨x, y, z, rfl⟩ := List.length_eq_three.1 hlength
    simp only [Continues, and_true, between_iff_toNat, second_of_four_iff_toNat] at htail
    simp only [valueFrom, List.foldl_cons, List.foldl_nil]
    rw [String.utf8EncodeChar.eq_1, val_ofNat (by omega), if_neg (by omega), if_neg (by omega), if_neg (by omega)]
    simp only [List.cons.injEq, ← UInt8.toNat_inj, UInt8.toNat_ofNat', and_true]
    omega

theorem exists_toNat_eq {n : Nat} (h : n < 256) : ∃ b : UInt8, b.toNat = n :=
  ⟨UInt8.ofNat n, by rw [UInt8.toNat_ofNat']; omega⟩

/-- Every character that is not ASCII has a first byte and the bytes that it asks for. -/
theorem exists_valueFrom_eq {v : Nat} (low : 0x80 ≤ v) (valid : v < 0xD800 ∨ 0xDFFF < v ∧ v < 0x110000) :
    ∃ b lead tail, Lead.ofByte? b = some lead ∧ Continues lead.low lead.high tail ∧ tail.length = lead.more ∧
      valueFrom lead.bits tail = v := by
  obtain ⟨z, hz⟩ := exists_toNat_eq (n := v % 64 + 0x80) (by omega)
  obtain ⟨y, hy⟩ := exists_toNat_eq (n := v / 64 % 64 + 0x80) (by omega)
  obtain ⟨x, hx⟩ := exists_toNat_eq (n := v / 4096 % 64 + 0x80) (by omega)
  by_cases two : v < 0x800
  · obtain ⟨b, hb⟩ := exists_toNat_eq (n := v / 64 + 0xC0) (by omega)
    obtain h | h | h | h := Lead.ofByte?_cases b <;> try omega
    refine ⟨b, _, [z], h.2, ?_, rfl, ?_⟩
    · simp only [Continues, and_true, between_iff_toNat]
      omega
    · simp only [valueFrom, List.foldl_cons, List.foldl_nil]
      omega
  by_cases three : v < 0x10000
  · obtain ⟨b, hb⟩ := exists_toNat_eq (n := v / 4096 + 0xE0) (by omega)
    obtain h | h | h | h := Lead.ofByte?_cases b <;> try omega
    refine ⟨b, _, [y, z], h.2, ?_, rfl, ?_⟩
    · simp only [Continues, and_true, between_iff_toNat, second_of_three_iff_toNat]
      omega
    · simp only [valueFrom, List.foldl_cons, List.foldl_nil]
      omega
  · obtain ⟨b, hb⟩ := exists_toNat_eq (n := v / 262144 + 0xF0) (by omega)
    obtain h | h | h | h := Lead.ofByte?_cases b <;> try omega
    refine ⟨b, _, [x, y, z], h.2, ?_, rfl, ?_⟩
    · simp only [Continues, and_true, between_iff_toNat, second_of_four_iff_toNat]
      omega
    · simp only [valueFrom, List.foldl_cons, List.foldl_nil]
      omega

/-- A character has one byte, or a first byte and those that it asks for. -/
theorem utf8EncodeChar_cases (c : Char) :
    (∃ b : UInt8, b.toNat < 0x80 ∧ String.utf8EncodeChar c = [b] ∧ Char.ofNat b.toNat = c) ∨
    ∃ b lead tail, Lead.ofByte? b = some lead ∧ Continues lead.low lead.high tail ∧ tail.length = lead.more ∧
      String.utf8EncodeChar c = b :: tail ∧ Char.ofNat (valueFrom lead.bits tail) = c := by
  by_cases low : c.toNat < 0x80
  · obtain ⟨b, hb⟩ := exists_toNat_eq (n := c.toNat) (by omega)
    have hc : Char.ofNat b.toNat = c := by rw [hb, Char.ofNat_toNat]
    refine Or.inl ⟨b, by omega, ?_, hc⟩
    rw [← hc, utf8EncodeChar_ofNat (by omega)]
  · obtain ⟨b, lead, tail, hb, htail, hlength, hvalue⟩ := exists_valueFrom_eq (v := c.toNat) (by omega) c.valid
    have hc : Char.ofNat (valueFrom lead.bits tail) = c := by rw [hvalue, Char.ofNat_toNat]
    refine Or.inr ⟨b, lead, tail, hb, htail, hlength, ?_, hc⟩
    rw [← hc, utf8EncodeChar_valueFrom hb htail hlength]

/-- What follows the first byte of a character is what that byte asks for. -/
theorem continues_of_utf8EncodeChar {c : Char} {b : UInt8} {tail : List UInt8}
    (h : String.utf8EncodeChar c = b :: tail) : (b.toNat < 0x80 ∧ tail = []) ∨
      ∃ lead, Lead.ofByte? b = some lead ∧ Continues lead.low lead.high tail ∧ tail.length = lead.more := by
  obtain ⟨d, hd, hc, -⟩ | ⟨d, lead, rest, hd, hrest, hlength, hc, -⟩ := utf8EncodeChar_cases c
  · rw [h, List.cons.injEq] at hc
    exact Or.inl ⟨hc.1 ▸ hd, hc.2⟩
  · rw [h, List.cons.injEq] at hc
    obtain ⟨rfl, rfl⟩ := hc
    exact Or.inr ⟨lead, hd, hrest, hlength⟩

/-! ## The bytes after a first byte -/

theorem continuation_of_continues {low high : UInt8} {tail : List UInt8} (h : Continues low high tail) (bits : Nat)
    (rest : List UInt8) :
    continuation bits low high tail.length (tail ++ rest) = (Char.ofNat (valueFrom bits tail), rest) := by
  induction tail generalizing bits low high with
  | nil => rfl
  | cons b tail ih =>
    rw [List.length_cons, List.cons_append, continuation, if_pos h.1, ih h.2, valueFrom, valueFrom, List.foldl_cons]

theorem Continues.append {xs ys : List UInt8} (hxs : Continues 0x80 0xBF xs) (hys : Continues 0x80 0xBF ys) :
    Continues 0x80 0xBF (xs ++ ys) := by
  induction xs with
  | nil => exact hys
  | cons x xs ih => exact ⟨hxs.1, ih hxs.2⟩

/-- A first byte that asks for more is not ASCII, and asks for bytes that there are and that are not ASCII. -/
theorem Lead.of_ofByte?_eq_some {b : UInt8} {lead : Lead} (hb : Lead.ofByte? b = some lead) :
    0xC2 ≤ b.toNat ∧ 0x80 ≤ lead.low ∧ lead.low ≤ lead.high ∧ 0 < lead.more := by
  obtain ⟨-, h⟩ | ⟨hrange, h⟩ | ⟨hrange, h⟩ | ⟨hrange, h⟩ := Lead.ofByte?_cases b <;> rw [hb] at h
  · cases h
  · rw [Option.some.injEq] at h
    subst h
    exact ⟨hrange.1, by dsimp only; decide, by dsimp only; decide, Nat.one_pos⟩
  · rw [Option.some.injEq] at h
    subst h
    refine ⟨by omega, ?_, ?_, Nat.zero_lt_succ 1⟩
    · dsimp only
      split_ifs <;> decide
    · dsimp only
      split_ifs with hlow hhigh
      · exact absurd (hlow.symm.trans hhigh) (by decide)
      all_goals decide
  · rw [Option.some.injEq] at h
    subst h
    refine ⟨by omega, ?_, ?_, Nat.zero_lt_succ 2⟩
    · dsimp only
      split_ifs <;> decide
    · dsimp only
      split_ifs with hlow hhigh
      · exact absurd (hlow.symm.trans hhigh) (by decide)
      all_goals decide

/-- Whether `part` breaks off before `rest`: no character begins there, and `part` is the longest part that could have
begun one, or one byte if there is no such part. -/
structure Broken (part rest : List UInt8) : Prop where
  ne_nil : part ≠ []
  illFormed : ∀ c, ¬ String.utf8EncodeChar c <+: part ++ rest
  begins : (∃ c, part <+: String.utf8EncodeChar c) ∨ part.length = 1
  longest : ∀ more c, more <+: rest → part ++ more <+: String.utf8EncodeChar c → more = []

variable {part rest : List UInt8}

/-- The bytes of a character are read as this character. -/
theorem nextChar_utf8EncodeChar {c : Char} {b : UInt8} {bs rest : List UInt8}
    (h : b :: bs = String.utf8EncodeChar c ++ rest) : nextChar b bs = (c, rest) := by
  obtain ⟨d, hd, hc, rfl⟩ | ⟨d, lead, tail, hd, htail, hlength, hc, rfl⟩ := utf8EncodeChar_cases c
  · rw [hc, List.singleton_append, List.cons.injEq] at h
    obtain ⟨rfl, rfl⟩ := h
    rw [nextChar, if_pos (UInt8.lt_iff_toNat_lt.2 hd)]
  · rw [hc, List.cons_append, List.cons.injEq] at h
    obtain ⟨rfl, rfl⟩ := h
    have hascii : ¬ b < 0x80 := by
      have := (Lead.of_ofByte?_eq_some hd).1
      rw [UInt8.lt_iff_toNat_lt]
      simp only [UInt8.reduceToNat]
      omega
    rw [nextChar, if_neg hascii, hd]
    dsimp only
    rw [← hlength, continuation_of_continues htail]

/-- `Lossy bs cs` : the bytes `bs` are read as the text `cs`. The bytes of a character are read as this character, and
a part that breaks off is read as one replacement. -/
inductive Lossy : List UInt8 → List Char → Prop
  | nil : Lossy [] []
  | char {c rest cs} (further : Lossy rest cs) : Lossy (String.utf8EncodeChar c ++ rest) (c :: cs)
  | broken {part rest cs} (breaks : Broken part rest) (further : Lossy rest cs) :
      Lossy (part ++ rest) (replacement :: cs)

variable {b : UInt8} {xs ys : List UInt8}

theorem Continues.not_ascii {low high : UInt8} (h : Continues low high xs) (hlow : 0x80 ≤ low) :
    ∀ x ∈ xs, 0x80 ≤ x := by
  induction xs generalizing low high with
  | nil => simp
  | cons x xs ih => exact List.forall_mem_cons.2 ⟨UInt8.le_trans hlow h.1.1, ih h.2 (UInt8.le_refl _)⟩

theorem not_ascii_of_utf8EncodeChar {c : Char} (h : String.utf8EncodeChar c = b :: xs) : ∀ x ∈ xs, 0x80 ≤ x := by
  obtain ⟨-, rfl⟩ | ⟨lead, hlead, hxs, -⟩ := continues_of_utf8EncodeChar h
  · simp
  · exact hxs.not_ascii (Lead.of_ofByte?_eq_some hlead).2.1

/-- An ASCII byte does not belong to a character that begins before it. -/
theorem prefix_of_prefix_append_cons (hb : b < 0x80) (hxs : xs ≠ []) {bs : List UInt8} {c : Char}
    (hc : bs <+: String.utf8EncodeChar c) (h : bs <+: xs ++ b :: ys) : bs <+: xs := by
  obtain hprefix | ⟨more, rfl⟩ := List.prefix_or_prefix_of_prefix h ⟨b :: ys, rfl⟩
  · exact hprefix
  · cases more with
    | nil => simp
    | cons d more =>
      rw [List.prefix_append_right_inj, List.cons_prefix_cons] at h
      obtain ⟨rfl, -⟩ := h
      obtain ⟨x, xs, rfl⟩ := List.exists_cons_of_ne_nil hxs
      obtain ⟨after, hafter⟩ := hc
      have hd := not_ascii_of_utf8EncodeChar (x := d) hafter.symm (by simp)
      exact absurd hb (UInt8.not_lt.2 hd)

/-- A part breaks off before an ASCII byte as it does before the end. -/
theorem Broken.append_cons (h : Broken part rest) (hb : b < 0x80) (ys : List UInt8) :
    Broken part (rest ++ b :: ys) := by
  have hne : part ++ rest ≠ [] := by simp [h.ne_nil]
  refine ⟨h.ne_nil, ?_, h.begins, ?_⟩
  · intro c hc
    rw [← List.append_assoc] at hc
    exact h.illFormed c (prefix_of_prefix_append_cons hb hne (List.prefix_refl _) hc)
  · intro more c hmore hc
    have hprefix : part ++ more <+: (part ++ rest) ++ b :: ys := by
      rwa [List.append_assoc, List.prefix_append_right_inj]
    have := prefix_of_prefix_append_cons hb hne hc hprefix
    rw [List.prefix_append_right_inj] at this
    exact h.longest more c this hc

/-- Bytes can be cut before an ASCII byte. -/
theorem Lossy.append_cons {cs ds : List Char} (h : Lossy xs cs) (hb : b < 0x80) (hys : Lossy (b :: ys) ds) :
    Lossy (xs ++ b :: ys) (cs ++ ds) := by
  induction h with
  | nil => exact hys
  | char _ ih =>
    rw [List.append_assoc]
    exact .char ih
  | broken breaks _ ih =>
    rw [List.append_assoc]
    exact .broken (breaks.append_cons hb ys) ih

end ExprLang.Text
