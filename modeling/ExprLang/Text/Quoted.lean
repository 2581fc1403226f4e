import ExprLang.Text.Printable

/-!
# Quoted text

A text between double quotes, written so that every character of it can be seen: the quote, the backslash and the
usual control characters as a backslash and a letter, any other character that does not show by its code point.
An apostrophe stands for itself.

* `escape` : the written form of one character;
* `quote` : the written form of a text, `isVisible_of_mem_quote`.
-/

namespace ExprLang.Text

def hexDigits (n : Nat) : String := String.ofList (Nat.toDigits 16 n)

/-- The letter that stands for the character after a backslash, if it has one. -/
def escapeLetter? : Char → Option Char
  | '\x00' => some '0'
  | '\t' => some 't'
  | '\r' => some 'r'
  | '\n' => some 'n'
  | '"' => some '"'
  | '\\' => some '\\'
  | _ => none

/-- Whether the character can be seen where it stands. The ASCII part is decided without the tables. -/
def isVisible (c : Char) : Bool :=
  if c.toNat < 0x7F then 0x20 ≤ c.toNat else isPrintable c && !isExtender c && !isIgnorable c

def escape (c : Char) : List Char :=
  match escapeLetter? c with
  | some l => ['\\', l]
  | none => if isVisible c then [c] else "\\u\x7b".toList ++ (hexDigits c.toNat).toList ++ ['\x7d']

/-- The text between double quotes, each character in its written form. -/
def quote (s : String) : String := String.ofList ('"' :: s.toList.flatMap escape ++ ['"'])

/-! ## What can be seen -/

/-- The tables agree with the ASCII part. -/
theorem isVisible_eq (c : Char) : isVisible c = (isPrintable c && !isExtender c && !isIgnorable c) := by
  unfold isVisible
  split
  · next h =>
    have hextender : isExtender c = false := inRanges_eq_false 0x7F (by decide +kernel) h
    have hignorable : isIgnorable c = false := inRanges_eq_false 0x7F (by decide +kernel) h
    have hunprintable : inRanges unprintableRanges c.toNat = decide (c.toNat ≤ 0x1F) := by
      have hrest : inRanges unprintableRanges.tail c.toNat = false :=
        inRanges_eq_false 0x7F (by decide +kernel) h
      show ((0 ≤ c.toNat && c.toNat ≤ 0x1F) || inRanges unprintableRanges.tail c.toNat) = _
      rw [hrest]
      simp
    rw [isPrintable, hextender, hignorable, hunprintable, Bool.not_false, Bool.and_true, Bool.and_true, ← decide_not]
    exact decide_eq_decide.2 (by omega)
  · rfl

theorem isVisible_of_mem_hexDigits (n : Nat) : ∀ c ∈ (hexDigits n).toList, isVisible c = true := by
  have hdigit : ∀ m < 16, isVisible m.digitChar = true := by decide +kernel
  rw [hexDigits, String.toList_ofList]
  induction n using Nat.strongRecOn with
  | ind n ih =>
    rw [Nat.toDigits_eq_if (by decide)]
    split
    · next h => exact List.forall_mem_singleton.2 (hdigit n h)
    · refine List.forall_mem_append.2 ⟨ih (n / 16) (by omega), ?_⟩
      exact List.forall_mem_singleton.2 (hdigit (n % 16) (Nat.mod_lt n (by decide)))

theorem isVisible_of_mem_escape (c : Char) : ∀ d ∈ escape c, isVisible d = true := by
  unfold escape
  split
  · next l hl =>
    have hletter : isVisible l = true := by
      unfold escapeLetter? at hl
      split at hl <;> cases hl <;> decide +kernel
    exact List.forall_mem_cons.2 ⟨by decide +kernel, List.forall_mem_singleton.2 hletter⟩
  · split
    · next h => exact List.forall_mem_singleton.2 h
    · refine List.forall_mem_append.2 ⟨List.forall_mem_append.2 ⟨?_, isVisible_of_mem_hexDigits _⟩, ?_⟩
      · exact List.all_eq_true.1 (by decide +kernel)
      · exact List.forall_mem_singleton.2 (by decide +kernel)

/-- Every character of a quoted text can be seen. -/
theorem isVisible_of_mem_quote (s : String) : ∀ c ∈ (quote s).toList, isVisible c = true := by
  have hquote : isVisible '"' = true := by decide +kernel
  rw [quote, String.toList_ofList, List.cons_append]
  refine List.forall_mem_cons.2 ⟨hquote, List.forall_mem_append.2 ⟨fun d hd => ?_, List.forall_mem_singleton.2 hquote⟩⟩
  obtain ⟨c, -, hd⟩ := List.mem_flatMap.1 hd
  exact isVisible_of_mem_escape c d hd

end ExprLang.Text
