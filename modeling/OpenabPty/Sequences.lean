import OpenabPty.Basic

/-!
# Escape sequences (`capproxy.rs`, `termfilter.rs`)

What the proxy on the way out and the filter on the way in share: the control bytes, the
bound on a sequence, and the two scans for the end of a sequence. Both scans give up past
index `maxSequenceLen`.
-/

namespace OpenabPty

/-- `ESC`. -/
def esc : UInt8 := 0x1b

/-- `BEL`. -/
def bel : UInt8 := 0x07

/-- `MAX_SEQUENCE_LEN`. -/
def maxSequenceLen : Nat := 256

/-- A byte string literal. -/
def ascii (s : String) : List UInt8 := s.toList.map fun c => UInt8.ofNat c.toNat

/-- `b.is_ascii_digit()`. -/
def isDigit (b : UInt8) : Bool := 0x30 ≤ b && b ≤ 0x39

/-- A number written in decimal. -/
def decimal (n : Nat) : List UInt8 := (Nat.toDigits 10 n).map fun c => UInt8.ofNat c.toNat

/-- The final byte of a CSI sequence and its index, from index `i` on: parameter bytes are
skipped, any other byte than a final one ends the scan. -/
def finalByte (param : UInt8 → Bool) : Nat → List UInt8 → Option (Nat × UInt8)
  | _, [] => none
  | i, b :: rest =>
    if maxSequenceLen < i then none
    else if param b then finalByte param (i + 1) rest
    else if 0x40 ≤ b ∧ b ≤ 0x7e then some (i, b)
    else none

/-- The index of the terminator of a string sequence, from index `i` on, and the length of
the whole sequence. -/
def stringEnd : Nat → List UInt8 → Option (Nat × Nat)
  | _, [] => none
  | i, b :: rest =>
    if maxSequenceLen < i then none
    else if b = bel then some (i, i + 1)
    else if b = esc ∧ rest.head? = some 0x5c then some (i, i + 2)
    else stringEnd (i + 1) rest

/-- `string_sequence`, of the proxy and of the filter: the payload from index `body` on, and
the length of the whole sequence. -/
def stringSequence (s : List UInt8) (body : Nat) : Option (List UInt8 × Nat) :=
  (stringEnd body (s.drop body)).map fun e => ((s.drop body).take (e.1 - body), e.2)

/-! ## Well-formed sequences are found -/

variable {param : UInt8 → Bool} {i : Nat}

/-- Parameter bytes and a final byte, whatever follows. -/
theorem finalByte_of_params {params : List UInt8} {b : UInt8} (tail : List UInt8)
    (hparams : ∀ c ∈ params, param c = true) (hb : param b = false) (hfinal : 0x40 ≤ b ∧ b ≤ 0x7e)
    (hlen : i + params.length ≤ maxSequenceLen) :
    finalByte param i (params ++ b :: tail) = some (i + params.length, b) := by
  induction params generalizing i with
  | nil =>
    have hi : ¬ maxSequenceLen < i := by simpa using hlen
    simp [finalByte, hi, hb, hfinal]
  | cons c params ih =>
    simp only [List.length_cons] at hlen
    have hi : ¬ maxSequenceLen < i := by omega
    have hc : param c = true := hparams c List.mem_cons_self
    rw [List.cons_append, finalByte, if_neg hi, if_pos hc,
      ih (fun d hd => hparams d (List.mem_cons_of_mem c hd)) (by omega), List.length_cons]
    congr 2
    omega

/-- What `finalByte` finds: parameter bytes and a final byte. -/
theorem finalByte_spec {s : List UInt8} {j : Nat} {b : UInt8}
    (h : finalByte param i s = some (j, b)) :
    ∃ params tail, s = params ++ b :: tail ∧ j = i + params.length ∧
      (∀ c ∈ params, param c = true) ∧ param b = false ∧ (0x40 ≤ b ∧ b ≤ 0x7e) ∧
      j ≤ maxSequenceLen := by
  induction s generalizing i with
  | nil => cases h
  | cons c rest ih =>
    rw [finalByte] at h
    split_ifs at h with hi hc hfinal
    · obtain ⟨params, tail, rfl, hj, hparams, hrest⟩ := ih h
      refine ⟨c :: params, tail, rfl, ?_, ?_, hrest⟩
      · rw [List.length_cons]
        omega
      · intro d hd
        rcases List.mem_cons.mp hd with rfl | hd
        · exact hc
        · exact hparams d hd
    · obtain ⟨rfl, rfl⟩ := Prod.mk.inj (Option.some.inj h)
      refine ⟨[], rest, rfl, by simp, by simp, by simpa using hc, hfinal, Nat.not_lt.mp hi⟩

/-- A terminator of a string sequence. -/
def IsTerminator (t : List UInt8) : Prop := t = [bel] ∨ t = [esc, 0x5c]

/-- A payload without control bytes and a terminator, whatever follows. -/
theorem stringEnd_of_payload {payload t : List UInt8} (tail : List UInt8)
    (hpayload : ∀ c ∈ payload, c ≠ bel ∧ c ≠ esc) (ht : IsTerminator t)
    (hlen : i + payload.length ≤ maxSequenceLen) :
    stringEnd i (payload ++ (t ++ tail)) =
      some (i + payload.length, i + payload.length + t.length) := by
  induction payload generalizing i with
  | nil =>
    have hi : ¬ maxSequenceLen < i := by simpa using hlen
    have hne : esc ≠ bel := by decide
    rcases ht with rfl | rfl <;> simp [stringEnd, hi, hne]
  | cons c payload ih =>
    simp only [List.length_cons] at hlen
    have hi : ¬ maxSequenceLen < i := by omega
    obtain ⟨hbel, hesc⟩ := hpayload c List.mem_cons_self
    rw [List.cons_append, stringEnd, if_neg hi, if_neg hbel, if_neg (fun h => hesc h.1),
      ih (fun d hd => hpayload d (List.mem_cons_of_mem c hd)) (by omega), List.length_cons]
    congr 2 <;> omega

/-- A string sequence with a payload without control bytes, whatever follows. -/
theorem stringSequence_of_payload {payload t : List UInt8} (a b : UInt8) (tail : List UInt8)
    (hpayload : ∀ c ∈ payload, c ≠ bel ∧ c ≠ esc) (ht : IsTerminator t)
    (hlen : 2 + payload.length ≤ maxSequenceLen) :
    stringSequence (a :: b :: (payload ++ (t ++ tail))) 2 =
      some (payload, 2 + payload.length + t.length) := by
  simp [stringSequence, stringEnd_of_payload tail hpayload ht hlen]

/-! ## Decimal numbers -/

theorem isDigit_of_mem_decimal {n : Nat} {b : UInt8} (h : b ∈ decimal n) : isDigit b = true := by
  obtain ⟨c, hc, rfl⟩ := List.mem_map.mp h
  have hd := Nat.isDigit_of_mem_toDigits (by decide) (by decide) hc
  simp only [Char.isDigit, Bool.and_eq_true, decide_eq_true_eq] at hd
  obtain ⟨hlo, hhi⟩ := hd
  have hlo : 48 ≤ c.toNat := hlo
  have hhi : c.toNat ≤ 57 := hhi
  have hmod : c.toNat % 256 = c.toNat := Nat.mod_eq_of_lt (by omega)
  simp [isDigit, UInt8.le_iff_toNat_le, hmod, hlo, hhi]

theorem length_decimal_le {n k : Nat} (hk : 0 < k) (h : n < 10 ^ k) : (decimal n).length ≤ k := by
  rw [decimal, List.length_map]
  exact (Nat.length_toDigits_le_iff (by decide) hk).mpr h

end OpenabPty
