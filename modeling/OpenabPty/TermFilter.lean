import OpenabPty.Core.Scanner
import OpenabPty.Sequences

/-!
# The response filter (`termfilter.rs`)

Client to PTY: the filter strips what a terminal only sends as the answer to a capability
query. It keeps nothing from one chunk to the next but its counters.
-/

namespace OpenabPty

/-- `TermFilter`. -/
structure TermFilter where
  strippedSequences : Nat
  strippedBytes : Nat
  deriving DecidableEq, Repr

namespace TermFilter

def new : TermFilter := { strippedSequences := 0, strippedBytes := 0 }

/-- `classify_csi`: device attributes, device status, the kitty flag report and the macro
space report. -/
def classifyCsi (s : List UInt8) : Option Nat :=
  match finalByte (fun b => 0x20 ≤ b && b ≤ 0x3f) 2 (s.drop 2) with
  | none => none
  | some (i, b) =>
    -- `c`, `n`, `u` after `?`, `{` with a `*` before it.
    if b = 0x63 ∨ b = 0x6e ∨ (b = 0x75 ∧ s[2]? = some 0x3f) ∨
        (b = 0x7b ∧ 0x2a ∈ (s.drop 2).take (i - 2)) then some (i + 1)
    else none

/-- `classify_osc`: the colour reports of OSC 10, 11 and 12. -/
def classifyOsc (s : List UInt8) : Option Nat :=
  match stringSequence s 2 with
  | none => none
  | some (payload, len) =>
    let ps := payload.takeWhile isDigit
    let rest := payload.dropWhile isDigit
    if ps = [] ∨ rest.head? ≠ some 0x3b then none
    else if (ps = ascii "10" ∨ ps = ascii "11" ∨ ps = ascii "12") ∧
        ((ascii ";rgb:").isPrefixOf rest ∨ (ascii ";rgba:").isPrefixOf rest) then some len
    else none

/-- `classify_dcs`: the macro checksum report. -/
def classifyDcs (s : List UInt8) : Option Nat :=
  match stringSequence s 2 with
  | none => none
  | some (payload, len) =>
    if (ascii "!~").isPrefixOf (payload.dropWhile isDigit) then some len else none

/-- `classify`: the length of the response that `s` starts with. -/
def classify (s : List UInt8) : Option Nat :=
  match (s[1]? : Option UInt8) with
  | some 0x5b => classifyCsi s
  | some 0x5d => classifyOsc s
  | some 0x50 => classifyDcs s
  | _ => none

/-- What the loop of `filter` does at one position. -/
def inspect (f : TermFilter) (s : List UInt8) : TermFilter × Scanner.Action Unit :=
  if s.head? ≠ some esc then (f, .pass 1)
  else
    match classify s with
    | some len =>
      ({ strippedSequences := f.strippedSequences + 1, strippedBytes := f.strippedBytes + len },
        .strip len ())
    | none => (f, .pass 1)

/-- `filter`. -/
def filter (f : TermFilter) (chunk : List UInt8) : TermFilter × List UInt8 :=
  if !chunk.contains esc then (f, chunk)
  else
    let r := Scanner.scan inspect f (.pass 0) chunk
    (r.1, r.2.1)

/-- The fast path does what the loop does. -/
theorem filter_eq_scan (f : TermFilter) (chunk : List UInt8) :
    f.filter chunk =
      ((Scanner.scan inspect f (.pass 0) chunk).1, (Scanner.scan inspect f (.pass 0) chunk).2.1) := by
  rw [filter]
  split
  · rename_i hno
    rw [Scanner.scan_plain]
    intro c hc rest
    have hne : c ≠ esc := by
      rintro rfl
      simp [hc] at hno
    simp [inspect, hne]
  · rfl

end TermFilter

end OpenabPty
