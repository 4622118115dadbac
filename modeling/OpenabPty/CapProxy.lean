import Mathlib.Data.List.Basic
import OpenabPty.Core.Scanner
import OpenabPty.Sequences

/-!
# The capability proxy (`capproxy.rs`)

PTY to runtime: the proxy answers capability queries at the source and strips them from the
output, and follows the kitty keyboard state that the client's emulator keeps.
-/

namespace OpenabPty

/-- `KITTY_STACK_LIMIT`. -/
def kittyStackLimit : Nat := 16

/-- `KITTY_KNOWN_MASK`. -/
def kittyKnownMask : UInt16 := 0x1f

/-- `FG_COLOUR`. -/
def fgColour : List UInt8 := ascii "rgb:c7c7/c7c7/c7c7"

/-- `BG_COLOUR`. -/
def bgColour : List UInt8 := ascii "rgb:1e1e/1e1e/1e1e"

/-- `CURSOR_COLOUR`. -/
def cursorColour : List UInt8 := fgColour

/-- `Inspection`, with `Match` inlined. -/
inductive Inspection where
  | answer (consume : Nat) (response : List UInt8)
  | observed (len : Nat)
  | unknown
  deriving DecidableEq, Repr

/-- `KittyScreen`; the top of the stack is its last entry. -/
structure KittyScreen where
  flags : UInt16
  stack : List UInt16
  deriving DecidableEq, Repr

/-- `KittyScreen::default`. -/
def KittyScreen.default : KittyScreen := { flags := 0, stack := [] }

/-- `CapabilityProxy`; `kitty` is the pair of the normal and the alternate screen. -/
structure CapabilityProxy where
  answered : Nat
  kitty : KittyScreen × KittyScreen
  altActive : Bool
  deriving DecidableEq, Repr

/-- `parse_params`: `;` and `:` both open a new slot, more than 24 slots is `none`. -/
def parseParams (params : List UInt8) : Option (List UInt16) :=
  let groups := params.splitOnP fun b => b = 0x3b || b = 0x3a
  if groups.length > 24 then none
  else
    some (groups.map fun group => UInt16.ofNat
      (group.foldl (fun value digit => min (value * 10 + (digit.toNat - 0x30)) 65535) 0))

/-- The value of one slot, saturated. -/
def paramValue (group : List UInt8) : UInt16 :=
  UInt16.ofNat (group.foldl (fun value digit => min (value * 10 + (digit.toNat - 0x30)) 65535) 0)

theorem parseParams_eq (params : List UInt8) :
    parseParams params =
      if (params.splitOnP fun b => b = 0x3b || b = 0x3a).length > 24 then none
      else some ((params.splitOnP fun b => b = 0x3b || b = 0x3a).map paramValue) := rfl

/-- `parse_decimal`: `None` for an empty or overflowing number. -/
def parseDecimal (digits : List UInt8) : Option Nat :=
  if digits = [] then none
  else
    digits.foldl (fun value b => value.bind fun v =>
      if !isDigit b then none
      else
        let v := v * 10 + (b.toNat - 0x30)
        if v < 2 ^ 32 then some v else none) (some 0)

/-- `c.is_ascii_hexdigit()`. -/
def isHexDigit (b : UInt8) : Bool :=
  isDigit b || (0x41 ≤ b && b ≤ 0x46) || (0x61 ≤ b && b ≤ 0x66)

/-- The loop of `hex_digits`: at most four hex digits, and the first other byte. -/
def hexRun : Nat → List UInt8 → Nat × List UInt8
  | _, [] => (0, [])
  | 0, data => (0, data)
  | n + 1, c :: data =>
    if isHexDigit c then
      let r := hexRun n data
      (r.1 + 1, r.2)
    else (0, data)

/-- `hex_digits`: the count, and the data after the run and one `/`. -/
def hexDigits (data : List UInt8) : Nat × List UInt8 :=
  let r := hexRun 4 data
  (r.1, if r.2.head? = some 0x2f then r.2.tail else r.2)

/-- `is_colour`. -/
def isColour (spec : List UInt8) : Bool :=
  if spec.head? = some 0x23 then
    spec.length - 1 = 3 || spec.length - 1 = 6 || spec.length - 1 = 9 || spec.length - 1 = 12
  else if (ascii "rgb:").isPrefixOf spec then
    let r₁ := hexDigits (spec.drop 4)
    let r₂ := hexDigits r₁.2
    let r₃ := hexDigits r₂.2
    r₁.1 > 0 || r₂.1 > 0 || r₃.1 > 0
  else false

/-- `push_colour_report`, as the bytes it appends. -/
def colourReport (code : Nat) (colour terminator : List UInt8) : List UInt8 :=
  ascii "\x1b]" ++ decimal code ++ ascii ";" ++ colour ++ terminator

/-- The colour of a live slot: foreground, background, cursor. -/
def slotColour : Nat → Option (List UInt8)
  | 0 => some fgColour
  | 1 => some bgColour
  | 2 => some cursorColour
  | _ => none

/-- The loop of `osc_face_colour` from slot `target` on. -/
def faceColours (terminator : List UInt8) : Nat → List (List UInt8) → Option (List UInt8)
  | _, [] => some []
  | target, group :: groups =>
    if group.head? = some 0x3f then
      match slotColour target with
      | some colour =>
        (faceColours terminator (target + 1) groups).map fun response =>
          colourReport (10 + target) colour terminator ++ response
      | none => faceColours terminator (target + 1) groups
    else if target ≤ 2 ∧ isColour group then none
    else faceColours terminator (target + 1) groups

/-- `osc_face_colour`; empty groups are dropped before indexing. -/
def oscFaceColour (base : Nat) (rest : List UInt8) (len : Nat) (terminator : List UInt8) :
    Option Inspection :=
  (faceColours terminator base ((rest.splitOnP (· = 0x3b)).filter (· ≠ []))).map fun response =>
    .answer len response

/-- `classify_osc_query`. -/
def classifyOscQuery (s : List UInt8) : Option Inspection :=
  match stringSequence s 2 with
  | none => none
  | some (payload, len) =>
    let terminator := if s[len - 1]? = some bel then [bel] else ascii "\x1b\\"
    let digits := payload.takeWhile (· ≠ 0x3b)
    match payload.dropWhile (· ≠ 0x3b) with
    | [] => none
    | _ :: rest =>
      match parseDecimal digits with
      | none => none
      | some ps => if 10 ≤ ps ∧ ps ≤ 12 then oscFaceColour (ps - 10) rest len terminator else none

namespace CapabilityProxy

def new : CapabilityProxy :=
  { answered := 0, kitty := (.default, .default), altActive := false }

/-- `reset_emulator_model`. -/
def resetEmulatorModel (p : CapabilityProxy) : CapabilityProxy :=
  { p with kitty := (.default, .default), altActive := false }

/-- `kitty_screen`. -/
def kittyScreen (p : CapabilityProxy) : KittyScreen :=
  if p.altActive then p.kitty.2 else p.kitty.1

/-- Write through the reference `kitty_screen` returns. -/
def setKittyScreen (p : CapabilityProxy) (screen : KittyScreen) : CapabilityProxy :=
  { p with kitty := if p.altActive then (p.kitty.1, screen) else (screen, p.kitty.2) }

/-- `kitty_push`. -/
def kittyPush (p : CapabilityProxy) (rawFlags : UInt16) : CapabilityProxy :=
  let screen := p.kittyScreen
  let stack := if screen.stack.length ≥ kittyStackLimit then screen.stack.drop 1 else screen.stack
  p.setKittyScreen { flags := rawFlags &&& kittyKnownMask, stack := stack ++ [screen.flags] }

/-- `kitty_set`. -/
def kittySet (p : CapabilityProxy) (rawFlags mode : UInt16) : CapabilityProxy :=
  let newFlags := rawFlags &&& kittyKnownMask
  let screen := p.kittyScreen
  match mode with
  | 1 => p.setKittyScreen { screen with flags := newFlags }
  | 2 => p.setKittyScreen { screen with flags := screen.flags ||| newFlags }
  | 3 => p.setKittyScreen { screen with flags := screen.flags &&& ~~~newFlags }
  | _ => p

/-- `kitty_pop`: what is popped last are the new flags. -/
def kittyPop (p : CapabilityProxy) (count : UInt16) : CapabilityProxy :=
  let count := max count.toNat 1
  let screen := p.kittyScreen
  if count > screen.stack.length then p.setKittyScreen { flags := 0, stack := [] }
  else
    let left := screen.stack.length - count
    p.setKittyScreen
      { flags := screen.stack.getD left screen.flags, stack := screen.stack.take left }

/-- `buffer_modes`. -/
def bufferModes (p : CapabilityProxy) (pars : List UInt16) (set : Bool) : CapabilityProxy :=
  if pars.any (fun m => m = 47 || m = 1047 || m = 1049) then { p with altActive := set } else p

/-- `dsr_private`. -/
def dsrPrivate (pars : List UInt16) (len : Nat) : Inspection :=
  match pars.headD 0 with
  | 15 => .answer len (ascii "\x1b[?10n")
  | 25 => .answer len (ascii "\x1b[?21n")
  | 26 => .answer len (ascii "\x1b[?27;1;0;0n")
  | 55 => .answer len (ascii "\x1b[?53n")
  | 56 => .answer len (ascii "\x1b[?57;1n")
  | 62 => .answer len (ascii "\x1b[0*\x7b")
  | 63 =>
    let id := (pars[1]?).getD 0
    .answer len (ascii "\x1bP" ++ decimal id.toNat ++ ascii "!~0000\x1b\\")
  | 75 => .answer len (ascii "\x1b[?70n")
  | 85 => .answer len (ascii "\x1b[?83n")
  | _ => .observed len

/-- `dispatch_csi`: the private markers are `?`, `>`, `=` and `<`. -/
def dispatchCsi (p : CapabilityProxy) (marker : Option UInt8) (params : List UInt8) (final : UInt8)
    (len : Nat) : CapabilityProxy × Inspection :=
  match parseParams params with
  | none => (p, .observed len)
  | some pars =>
    let p0 := pars.headD 0
    match marker, final with
    | none, 0x63 =>
      if p0 = 0 then (p, .answer len (ascii "\x1b[?65;4;1;2;6;21;22;17;28c"))
      else (p, .observed len)
    | some 0x3e, 0x63 =>
      if p0 = 0 then (p, .answer len (ascii "\x1b[>65;20;1c")) else (p, .observed len)
    | none, 0x6e => if p0 = 5 then (p, .answer len (ascii "\x1b[0n")) else (p, .observed len)
    | some 0x3f, 0x6e => (p, dsrPrivate pars len)
    | some 0x3f, 0x75 =>
      (p, .answer len (ascii "\x1b[?" ++ decimal p.kittyScreen.flags.toNat ++ ascii "u"))
    | some 0x3e, 0x75 => (p.kittyPush p0, .observed len)
    | some 0x3d, 0x75 => (p.kittySet p0 (pars[1]?.getD 1), .observed len)
    | some 0x3c, 0x75 => (p.kittyPop p0, .observed len)
    | some 0x3f, 0x68 => (p.bufferModes pars true, .observed len)
    | some 0x3f, 0x6c => (p.bufferModes pars false, .observed len)
    | _, _ => (p, .observed len)

/-- The private marker of a CSI sequence. -/
def csiMarker (s : List UInt8) : Option UInt8 :=
  s[2]?.filter fun b : UInt8 => b = 0x3f || b = 0x3e || b = 0x3d || b = 0x3c

/-- `params_start`. -/
def paramsStart (s : List UInt8) : Nat := if (csiMarker s).isSome then 3 else 2

/-- `inspect_csi`. -/
def inspectCsi (p : CapabilityProxy) (s : List UInt8) : CapabilityProxy × Inspection :=
  if (csiMarker s).isNone ∧ s[2]? = some 0x3a then (p, .unknown)
  else
    match finalByte (fun b => 0x30 ≤ b && b ≤ 0x3b) (paramsStart s) (s.drop (paramsStart s)) with
    | some (i, b) =>
      p.dispatchCsi (csiMarker s) ((s.drop (paramsStart s)).take (i - paramsStart s)) b (i + 1)
    | none => (p, .unknown)

/-- `inspect`. -/
def inspect (p : CapabilityProxy) (s : List UInt8) : CapabilityProxy × Inspection :=
  match (s[1]? : Option UInt8) with
  | some 0x5b => p.inspectCsi s
  | some 0x5d => (p, (classifyOscQuery s).getD .unknown)
  | some 0x63 => (p.resetEmulatorModel, .observed 2)
  | _ => (p, .unknown)

/-- What the loop of `process` does at one position. -/
def examine (p : CapabilityProxy) (s : List UInt8) :
    CapabilityProxy × Scanner.Action (List UInt8) :=
  if s.head? ≠ some esc then (p, .pass 1)
  else
    match p.inspect s with
    | (p, .answer consume response) =>
      ({ p with answered := p.answered + 1 }, .strip consume response)
    | (p, .observed len) => (p, .pass len)
    | (p, .unknown) => (p, .pass 1)

/-- `process`: the output worth keeping, and the bytes to write back to the child. -/
def process (p : CapabilityProxy) (chunk : List UInt8) :
    CapabilityProxy × List UInt8 × List UInt8 :=
  if !chunk.contains esc then (p, chunk, [])
  else
    let r := Scanner.scan examine p (.pass 0) chunk
    (r.1, r.2.1, r.2.2.flatten)

/-- A CSI introducer starts nothing the proxy knows, or a sequence that it dispatches. -/
theorem inspectCsi_cases (s : List UInt8) :
    (∀ p : CapabilityProxy, p.inspectCsi s = (p, .unknown)) ∨
    ∃ i b, finalByte (fun b => 0x30 ≤ b && b ≤ 0x3b) (paramsStart s) (s.drop (paramsStart s)) =
        some (i, b) ∧
      ∀ p : CapabilityProxy, p.inspectCsi s = p.dispatchCsi (csiMarker s)
        ((s.drop (paramsStart s)).take (i - paramsStart s)) b (i + 1) := by
  by_cases hcolon : (csiMarker s).isNone ∧ s[2]? = some 0x3a
  · exact .inl fun p => by rw [inspectCsi, if_pos hcolon]
  · cases hf : finalByte (fun b => 0x30 ≤ b && b ≤ 0x3b) (paramsStart s)
        (s.drop (paramsStart s)) with
    | none => exact .inl fun p => by rw [inspectCsi, if_neg hcolon, hf]
    | some found =>
      obtain ⟨i, b⟩ := found
      exact .inr ⟨i, b, rfl, fun p => by rw [inspectCsi, if_neg hcolon, hf]⟩

/-- The fast path does what the loop does. -/
theorem process_eq_scan (p : CapabilityProxy) (chunk : List UInt8) :
    p.process chunk =
      ((Scanner.scan examine p (.pass 0) chunk).1, (Scanner.scan examine p (.pass 0) chunk).2.1,
        (Scanner.scan examine p (.pass 0) chunk).2.2.flatten) := by
  rw [process]
  split
  · rename_i hno
    rw [Scanner.scan_plain]
    · rfl
    · intro c hc rest
      have hne : c ≠ esc := by
        rintro rfl
        simp [hc] at hno
      simp [examine, hne]
  · rfl

/-- `resync`. -/
def resync (p : CapabilityProxy) (replay : List UInt8) : CapabilityProxy :=
  { (p.resetEmulatorModel.process replay).1 with answered := p.answered }

end CapabilityProxy

end OpenabPty
