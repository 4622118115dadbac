import Mathlib.Data.List.Basic

/-!
# Words of a line

Lines that are taken apart at white space, at the last place where two characters follow each
other, and into numbers. A line is the list of its characters.
-/

namespace Words

/-- `char::is_whitespace`: the characters that have the property `White_Space`. -/
def isWhitespace (c : Char) : Bool :=
  (9 ≤ c.toNat && c.toNat ≤ 13) || c.toNat == 0x20 || c.toNat == 0x85 || c.toNat == 0xA0 ||
    c.toNat == 0x1680 || (0x2000 ≤ c.toNat && c.toNat ≤ 0x200A) || c.toNat == 0x2028 ||
    c.toNat == 0x2029 || c.toNat == 0x202F || c.toNat == 0x205F || c.toNat == 0x3000

/-- `str::split_whitespace`. -/
def splitWhitespace (s : List Char) : List (List Char) :=
  (s.splitOnP isWhitespace).filter (· ≠ [])

/-- `str::rsplit_once`, for a delimiter of two characters: what stands before and after the last
one. -/
def rsplitOnce (a b : Char) : List Char → Option (List Char × List Char)
  | [] => none
  | c :: s =>
    match rsplitOnce a b s with
    | some (before, after) => some (c :: before, after)
    | none => if c = a ∧ s.head? = some b then some ([], s.tail) else none

/-- The number that a word of digits stands for. -/
def parseDigits (s : List Char) : Option Nat :=
  if s ≠ [] ∧ s.all Char.isDigit then some (Nat.ofDigitChars 10 s 0) else none

/-- The number of a word that may have a sign. -/
def parseInt : List Char → Option Int
  | '+' :: s => (parseDigits s).map fun n => n
  | '-' :: s => (parseDigits s).map fun n => -n
  | s => (parseDigits s).map fun n => n

/-- `str::parse::<i32>`. -/
def parseI32 (s : List Char) : Option Int :=
  (parseInt s).filter fun n => -2147483648 ≤ n ∧ n ≤ 2147483647

/-- A number as it is printed. -/
def printInt (n : Int) : List Char :=
  if n < 0 then '-' :: Nat.toDigits 10 n.natAbs else Nat.toDigits 10 n.natAbs

/-! ## Numbers -/

theorem isDigit_of_mem_toDigits {n : Nat} {c : Char} (h : c ∈ Nat.toDigits 10 n) :
    c.isDigit = true :=
  Nat.isDigit_of_mem_toDigits (by omega) (by omega) h

theorem parseDigits_toDigits (n : Nat) : parseDigits (Nat.toDigits 10 n) = some n := by
  rw [parseDigits,
    if_pos ⟨Nat.toDigits_ne_nil, List.all_eq_true.mpr fun _ => isDigit_of_mem_toDigits⟩,
    Nat.ofDigitChars_ten_toDigits]

theorem parseInt_printInt (n : Int) : parseInt (printInt n) = some n := by
  rw [printInt]
  split
  · rename_i hneg
    rw [parseInt, parseDigits_toDigits]
    change some (-(n.natAbs : Int)) = some n
    rw [Int.ofNat_natAbs_of_nonpos (Int.le_of_lt hneg), Int.neg_neg]
  · have hsign : ∀ c s, Nat.toDigits 10 n.natAbs = c :: s → c.isDigit = true := by
      intro c s hs
      exact isDigit_of_mem_toDigits (by rw [hs]; exact .head s)
    unfold parseInt
    split
    · rename_i s hs
      exact absurd (hsign _ s hs) (by decide)
    · rename_i s hs
      exact absurd (hsign _ s hs) (by decide)
    · rw [parseDigits_toDigits]
      simp
      omega

theorem parseI32_printInt {n : Int} (hlow : -2147483648 ≤ n) (hhigh : n ≤ 2147483647) :
    parseI32 (printInt n) = some n := by
  rw [parseI32, parseInt_printInt, Option.filter_some, if_pos (by simpa using ⟨hlow, hhigh⟩)]

/-- A number is printed with digits and a sign. -/
theorem mem_printInt {n : Int} {c : Char} (h : c ∈ printInt n) : c = '-' ∨ c.isDigit = true := by
  rw [printInt] at h
  split at h
  · exact (List.mem_cons.mp h).imp_right isDigit_of_mem_toDigits
  · exact .inr (isDigit_of_mem_toDigits h)

theorem printInt_ne_nil (n : Int) : printInt n ≠ [] := by
  rw [printInt]
  split
  · exact List.cons_ne_nil _ _
  · exact Nat.toDigits_ne_nil

/-! ## Cuts -/

theorem rsplitOnce_eq_none {a b : Char} {s : List Char} (h : a ∉ s) : rsplitOnce a b s = none := by
  induction s with
  | nil => rfl
  | cons c s ih =>
    rw [List.mem_cons, not_or] at h
    rw [rsplitOnce, ih h.2]
    exact if_neg fun hc => h.1 hc.1.symm

/-- A delimiter is the last one where its first character is the last. -/
theorem rsplitOnce_append {a b : Char} (before : List Char) {after : List Char} (hab : a ≠ b)
    (h : a ∉ after) : rsplitOnce a b (before ++ a :: b :: after) = some (before, after) := by
  induction before with
  | nil =>
    rw [List.nil_append, rsplitOnce, rsplitOnce_eq_none (by simp [hab, h])]
    exact if_pos ⟨rfl, rfl⟩
  | cons c before ih => rw [List.cons_append, rsplitOnce, ih]

/-- A word is the first of a line that goes on after white space. -/
theorem splitWhitespace_append {word : List Char} {c : Char} (hne : word ≠ [])
    (hword : ∀ d ∈ word, isWhitespace d = false) (hc : isWhitespace c = true) (rest : List Char) :
    splitWhitespace (word ++ c :: rest) = word :: splitWhitespace rest := by
  rw [splitWhitespace, List.splitOnP_append_cons_of_forall_mem hword c hc,
    List.filter_cons_of_pos (by simpa using hne), splitWhitespace]

theorem isWhitespace_of_isDigit {c : Char} (h : c.isDigit = true) : isWhitespace c = false := by
  simp only [Char.isDigit, Bool.and_eq_true, decide_eq_true_eq] at h
  have hlow : 48 ≤ c.toNat := h.1
  have hhigh : c.toNat ≤ 57 := h.2
  simp only [isWhitespace, Bool.or_eq_false_iff, Bool.and_eq_false_iff, decide_eq_false_iff_not,
    beq_eq_false_iff_ne]
  omega

theorem isWhitespace_printInt (n : Int) : ∀ c ∈ printInt n, isWhitespace c = false := by
  intro c hc
  rcases mem_printInt hc with rfl | hdigit
  · decide
  · exact isWhitespace_of_isDigit hdigit

end Words
