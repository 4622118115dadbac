import OpenabPty.Core.Window
import OpenabPty.Margins

/-!
# The kitty keyboard stacks (`capproxy.rs`)

Each screen has its flags and a stack of at most `kittyStackLimit` flag values. A push that
finds the stack full forgets the oldest of them, and a pop of as many as were pushed gives back
the flags from before the first push.
-/

namespace OpenabPty

open Scanner Window

/-- No more entries than the stack may have, and no flag that the proxy does not know. -/
structure KittyScreen.Bounded (screen : KittyScreen) : Prop where
  stack : screen.stack.length ≤ kittyStackLimit
  flags : screen.flags ≤ kittyKnownMask
  entries : ∀ flags ∈ screen.stack, flags ≤ kittyKnownMask

/-- A call that lets the proxy see output. -/
inductive ProxyCall where
  | process (chunk : List UInt8)
  | resync (replay : List UInt8)
  deriving DecidableEq, Repr

/-- `ESC [ > digits u`. -/
def pushSequence (digits : List UInt8) : List UInt8 := esc :: 0x5b :: 0x3e :: (digits ++ [0x75])

/-- `ESC [ < digits u`. -/
def popSequence (digits : List UInt8) : List UInt8 := esc :: 0x5b :: 0x3c :: (digits ++ [0x75])

example : pushSequence (ascii "5") ++ popSequence (ascii "1") = ascii "\x1b[>5u\x1b[<1u" := by
  decide

namespace CapabilityProxy

def Bounded (p : CapabilityProxy) : Prop := p.kitty.1.Bounded ∧ p.kitty.2.Bounded

/-- The proxy after a call. -/
def call (p : CapabilityProxy) : ProxyCall → CapabilityProxy
  | .process chunk => (p.process chunk).1
  | .resync replay => p.resync replay

/-- A new proxy after some calls. -/
def after (calls : List ProxyCall) : CapabilityProxy := calls.foldl call new

/-- One push for each of `params` and a pop of as many pass through unanswered, and give the
active screen its flags back and what the pushes left of its stack. -/
def Restores (p : CapabilityProxy) (params : List (List UInt8)) : Prop :=
  let chunk := params.flatMap pushSequence ++ popSequence (decimal params.length)
  let stack := p.kittyScreen.stack
  p.process chunk =
    (p.setKittyScreen
      { flags := p.kittyScreen.flags
        stack := stack.rtake (min stack.length (kittyStackLimit - params.length)) },
      chunk, [])

instance (p : CapabilityProxy) (params : List (List UInt8)) : Decidable (p.Restores params) :=
  inferInstanceAs (Decidable (_ = _))

variable {p : CapabilityProxy}

@[simp] theorem kittyScreen_setKittyScreen (screen : KittyScreen) :
    (p.setKittyScreen screen).kittyScreen = screen := by
  unfold kittyScreen setKittyScreen
  split <;> rfl

@[simp] theorem setKittyScreen_setKittyScreen (screen screen' : KittyScreen) :
    (p.setKittyScreen screen).setKittyScreen screen' = p.setKittyScreen screen' := by
  unfold setKittyScreen
  cases p.altActive <;> rfl

@[simp] theorem setKittyScreen_kittyScreen : p.setKittyScreen p.kittyScreen = p := by
  unfold kittyScreen setKittyScreen
  split <;> rfl

/-! ## Every state is bounded -/

theorem bounded_default : KittyScreen.default.Bounded where
  stack := Nat.zero_le _
  flags := by decide
  entries := by simp [KittyScreen.default]

theorem bounded_new : new.Bounded := ⟨bounded_default, bounded_default⟩

theorem bounded_resetEmulatorModel (p : CapabilityProxy) : p.resetEmulatorModel.Bounded :=
  ⟨bounded_default, bounded_default⟩

theorem Bounded.kittyScreen (h : p.Bounded) : p.kittyScreen.Bounded := by
  unfold CapabilityProxy.kittyScreen
  split
  · exact h.2
  · exact h.1

theorem Bounded.setKittyScreen {screen : KittyScreen} (h : p.Bounded) (hs : screen.Bounded) :
    (p.setKittyScreen screen).Bounded := by
  unfold CapabilityProxy.setKittyScreen
  by_cases halt : p.altActive = true
  · simp only [halt, if_true]
    exact ⟨h.1, hs⟩
  · simp only [halt]
    exact ⟨hs, h.2⟩

/-- With its stack bounded, a push puts one more value on top of it. -/
theorem kittyPush_eq (hstack : p.kittyScreen.stack.length ≤ kittyStackLimit) (raw : UInt16) :
    p.kittyPush raw = p.setKittyScreen
      { flags := raw &&& kittyKnownMask
        stack := push kittyStackLimit p.kittyScreen.stack [p.kittyScreen.flags] } := by
  have hlimit : 1 ≤ kittyStackLimit := by decide
  have hstack' : push kittyStackLimit p.kittyScreen.stack [p.kittyScreen.flags] =
      (if p.kittyScreen.stack.length ≥ kittyStackLimit then p.kittyScreen.stack.drop 1
        else p.kittyScreen.stack) ++ [p.kittyScreen.flags] := by
    rw [push_eq_append (by simpa using hlimit), List.rtake, List.length_singleton]
    split_ifs with hfull
    · congr 2
      omega
    · have hdrop : p.kittyScreen.stack.length - (kittyStackLimit - 1) = 0 := by omega
      rw [hdrop, List.drop_zero]
  rw [kittyPush, hstack']

theorem Bounded.kittyPush (h : p.Bounded) (raw : UInt16) : (p.kittyPush raw).Bounded := by
  have hscreen := h.kittyScreen
  rw [kittyPush_eq hscreen.stack]
  refine h.setKittyScreen ⟨?_, UInt16.and_le_right, ?_⟩
  · rw [length_push]
    exact Nat.min_le_left _ _
  · intro flags hflags
    rcases List.mem_append.mp ((rtake_suffix _ _).subset hflags) with hmem | hmem
    · exact hscreen.entries flags hmem
    · rw [List.mem_singleton.mp hmem]
      exact hscreen.flags

theorem Bounded.kittySet (h : p.Bounded) (raw mode : UInt16) : (p.kittySet raw mode).Bounded := by
  have hscreen := h.kittyScreen
  unfold CapabilityProxy.kittySet
  dsimp only
  split
  · exact h.setKittyScreen ⟨hscreen.stack, UInt16.and_le_right, hscreen.entries⟩
  · refine h.setKittyScreen ⟨hscreen.stack, ?_, hscreen.entries⟩
    -- The union of two sets of known flags.
    have hflags : p.kittyScreen.flags.toNat < 2 ^ 5 :=
      Nat.lt_succ_of_le (UInt16.le_iff_toNat_le.mp hscreen.flags)
    have hraw : (raw &&& kittyKnownMask).toNat < 2 ^ 5 :=
      Nat.lt_succ_of_le (UInt16.le_iff_toNat_le.mp UInt16.and_le_right)
    rw [UInt16.le_iff_toNat_le, UInt16.toNat_or]
    exact Nat.le_of_lt_succ (Nat.or_lt_two_pow hflags hraw)
  · exact h.setKittyScreen
      ⟨hscreen.stack, UInt16.le_trans UInt16.and_le_left hscreen.flags, hscreen.entries⟩
  · exact h

theorem Bounded.kittyPop (h : p.Bounded) (count : UInt16) : (p.kittyPop count).Bounded := by
  have hscreen := h.kittyScreen
  unfold CapabilityProxy.kittyPop
  dsimp only
  split_ifs with hover
  · exact h.setKittyScreen ⟨Nat.zero_le _, by decide, by simp⟩
  · refine h.setKittyScreen ⟨?_, ?_, ?_⟩
    · exact Nat.le_trans (List.length_take_le' _ _) hscreen.stack
    · rw [List.getD_eq_getElem?_getD]
      cases hget : p.kittyScreen.stack[p.kittyScreen.stack.length - max count.toNat 1]? with
      | none => exact hscreen.flags
      | some flags => exact hscreen.entries flags (List.mem_of_getElem? hget)
    · exact fun flags hflags => hscreen.entries flags (List.mem_of_mem_take hflags)

theorem Bounded.bufferModes (h : p.Bounded) (pars : List UInt16) (set : Bool) :
    (p.bufferModes pars set).Bounded := by
  unfold CapabilityProxy.bufferModes
  split <;> exact h

theorem Bounded.dispatchCsi (h : p.Bounded) (marker : Option UInt8) (params : List UInt8)
    (final : UInt8) (len : Nat) : (p.dispatchCsi marker params final len).1.Bounded := by
  unfold CapabilityProxy.dispatchCsi
  split
  · exact h
  · dsimp only
    split <;> (try split_ifs) <;>
      first
        | exact h
        | exact h.kittyPush _
        | exact h.kittySet _ _
        | exact h.kittyPop _
        | exact h.bufferModes _ _

theorem Bounded.examine (h : p.Bounded) (s : List UInt8) : (p.examine s).1.Bounded := by
  have hinspect : (p.inspect s).1.Bounded := by
    unfold CapabilityProxy.inspect
    split
    · rcases inspectCsi_cases s with hunknown | ⟨i, b, -, hdispatch⟩
      · rw [hunknown]
        exact h
      · rw [hdispatch]
        exact h.dispatchCsi _ _ _ _
    · exact h
    · exact bounded_resetEmulatorModel p
    · exact h
  unfold CapabilityProxy.examine
  split_ifs with hesc
  · exact h
  · rcases hi : p.inspect s with ⟨q, inspection⟩
    rw [hi] at hinspect
    cases inspection <;> exact hinspect

theorem Bounded.process (h : p.Bounded) (chunk : List UInt8) : (p.process chunk).1.Bounded := by
  rw [process_eq_scan]
  exact scan_invariant (fun _ s hq => hq.examine s) h _ _

theorem Bounded.call (h : p.Bounded) (c : ProxyCall) : (p.call c).Bounded := by
  cases c with
  | process chunk => exact h.process chunk
  | resync replay => exact (bounded_resetEmulatorModel p).process replay

theorem bounded_after (calls : List ProxyCall) : (after calls).Bounded := by
  have hrun : ∀ (calls : List ProxyCall) {p : CapabilityProxy}, p.Bounded →
      (calls.foldl CapabilityProxy.call p).Bounded := by
    intro calls
    induction calls with
    | nil => exact fun h => h
    | cons c calls ih => exact fun h => ih (h.call c)
  exact hrun calls bounded_new

/-! ## Sequences that are observed -/

/-- Whatever comes behind it, the proxy passes `seq` on as a whole and makes `move` of its
state. -/
structure Observes (seq : List UInt8) (move : CapabilityProxy → CapabilityProxy) : Prop where
  head : ∃ plain, seq = esc :: plain ∧ ∀ c ∈ plain, c ≠ esc
  examine : ∀ p tail, CapabilityProxy.examine p (seq ++ tail) = (move p, .pass seq.length)

variable {seq : List UInt8} {move : CapabilityProxy → CapabilityProxy}

/-- A suffix of `seq` is all of it or has no `ESC`. -/
theorem Observes.parts (h : Observes seq move) (b : List UInt8) :
    Parts CapabilityProxy.examine seq b := by
  intro w hw hsuffix p
  refine ⟨?_, (progress_examine p w hw).2⟩
  obtain ⟨plain, hseq, hplain⟩ := h.head
  rw [hseq] at hsuffix
  rcases List.suffix_cons_iff.mp hsuffix with hall | hsuffix
  · rw [hall, ← hseq, h.examine p b]
    have halone := h.examine p []
    rw [List.append_nil] at halone
    exact halone.symm
  · cases w with
    | nil => exact absurd rfl hw
    | cons c w =>
      have hc : c ≠ esc := hplain c (hsuffix.subset List.mem_cons_self)
      rw [List.cons_append, examine_of_ne_esc p hc, examine_of_ne_esc p hc]

theorem Observes.process (h : Observes seq move) (p : CapabilityProxy) :
    p.process seq = (move p, seq, []) := by
  obtain ⟨plain, rfl, hplain⟩ := h.head
  have hexamine := h.examine p []
  rw [List.append_nil] at hexamine
  have hone : ∀ c ∈ plain, ∀ rest,
      CapabilityProxy.examine (move p) (c :: rest) = (move p, .pass 1) :=
    fun c hc rest => examine_of_ne_esc _ (hplain c hc) rest
  have hpass := scan_pass_plain [] (Nat.le_refl plain.length) hone
  have hrest := scan_plain hone
  rw [List.append_nil] at hpass
  rw [process_eq_scan, scan_of_pass hexamine]
  simp only [List.length_cons, Nat.add_sub_cancel, hpass, hrest, List.flatten_nil]

/-- What is observed in front of a chunk. -/
theorem Observes.process_append (h : Observes seq move) (p : CapabilityProxy) (b : List UInt8) :
    p.process (seq ++ b) =
      let r := (move p).process b
      (r.1, seq ++ r.2.1, r.2.2) := by
  rw [CapabilityProxy.process_append (h.parts b), h.process]
  rfl

/-- A kitty sequence with a private marker and one parameter. -/
theorem observes_csi {marker : UInt8} {digits : List UInt8}
    (hmarker : marker = 0x3e ∨ marker = 0x3c) (hdigits : ∀ b ∈ digits, isDigit b = true)
    (hlen : digits.length ≤ 253)
    (hmove : ∀ p len, CapabilityProxy.dispatchCsi p (some marker) digits 0x75 len =
      (move p, .observed len)) :
    Observes (esc :: 0x5b :: marker :: (digits ++ [0x75])) move where
  head := by
    refine ⟨_, rfl, ?_⟩
    intro c hc
    simp only [List.mem_cons, List.mem_append, List.not_mem_nil, or_false] at hc
    rcases hc with rfl | rfl | hc | rfl
    · decide
    · rcases hmarker with rfl | rfl <;> decide
    · rintro rfl
      exact absurd (hdigits esc hc) (by decide)
    · decide
  examine := by
    intro p tail
    have hparams : ∀ c ∈ digits, (decide (0x30 ≤ c) && decide (c ≤ 0x3b)) = true := by
      intro c hc
      have hdigit := hdigits c hc
      simp only [isDigit, Bool.and_eq_true, decide_eq_true_eq] at hdigit ⊢
      exact ⟨hdigit.1, UInt8.le_trans hdigit.2 (by decide)⟩
    have hbound : 3 + digits.length ≤ maxSequenceLen := by
      rw [maxSequenceLen]
      omega
    have hfound := finalByte_of_params (b := 0x75) tail hparams (by decide) (by decide) hbound
    have hs : esc :: 0x5b :: marker :: (digits ++ [0x75]) ++ tail =
        esc :: 0x5b :: marker :: (digits ++ 0x75 :: tail) := by simp
    have hmark : csiMarker (esc :: 0x5b :: marker :: (digits ++ 0x75 :: tail)) = some marker := by
      rcases hmarker with rfl | rfl <;> rfl
    have hstart : paramsStart (esc :: 0x5b :: marker :: (digits ++ 0x75 :: tail)) = 3 := by
      rw [paramsStart, hmark]
      rfl
    have hcsi : p.inspectCsi (esc :: 0x5b :: marker :: (digits ++ 0x75 :: tail)) =
        (move p, .observed (3 + digits.length + 1)) := by
      rw [inspectCsi, hmark, hstart, if_neg (by simp)]
      simp only [List.drop_succ_cons, List.drop_zero, hfound, Nat.add_sub_cancel_left,
        List.take_left, hmove]
    have hinspect : p.inspect (esc :: 0x5b :: marker :: (digits ++ 0x75 :: tail)) =
        (move p, .observed (3 + digits.length + 1)) := hcsi
    rw [hs, CapabilityProxy.examine, if_neg (by simp), hinspect]
    simp only [List.length_cons, List.length_append, List.length_nil]
    congr 2
    omega

/-! ## Pushes and a pop -/

/-- A parameter is one group of digits. -/
theorem parseParams_digits {digits : List UInt8} (h : ∀ b ∈ digits, isDigit b = true) :
    parseParams digits = some [paramValue digits] := by
  have hgroups : digits.splitOnP (fun b => b = 0x3b || b = 0x3a) = [digits] := by
    refine List.splitOnP_eq_singleton ?_
    intro b hb
    have hdigit := h b hb
    by_contra hsep
    simp only [Bool.or_eq_true, decide_eq_true_eq, Bool.not_eq_false] at hsep
    rcases hsep with rfl | rfl <;> exact absurd hdigit (by decide)
  rw [parseParams_eq, hgroups]
  rfl

/-- A parameter that a sequence with a private marker can have. -/
structure Parameter (digits : List UInt8) : Prop where
  decimal : ∀ b ∈ digits, isDigit b = true
  short : digits.length ≤ 253

theorem observes_push {digits : List UInt8} (h : Parameter digits) :
    Observes (pushSequence digits) (·.kittyPush (paramValue digits)) := by
  refine observes_csi (.inl rfl) h.decimal h.short ?_
  intro p len
  rw [dispatchCsi, parseParams_digits h.decimal]
  rfl

theorem observes_pop {digits : List UInt8} (h : Parameter digits) :
    Observes (popSequence digits) (·.kittyPop (paramValue digits)) := by
  refine observes_csi (.inr rfl) h.decimal h.short ?_
  intro p len
  rw [dispatchCsi, parseParams_digits h.decimal]
  rfl

theorem parameter_decimal {k : Nat} (hk : k ≤ kittyStackLimit) :
    Parameter (decimal k) ∧ (paramValue (decimal k)).toNat = k := by
  refine ⟨⟨fun b hb => isDigit_of_mem_decimal hb, ?_⟩, ?_⟩
  · have hsmall : k < 10 ^ 2 := Nat.lt_of_le_of_lt hk (by decide)
    have htwo : 2 ≤ 253 := by decide
    exact Nat.le_trans (length_decimal_le Nat.two_pos hsmall) htwo
  · revert k
    decide

/-- What pushes save: the flags before each of them. -/
def saved (flags : UInt16) : List (List UInt8) → List UInt16
  | [] => []
  | digits :: params => flags :: saved (paramValue digits &&& kittyKnownMask) params

@[simp] theorem length_saved (flags : UInt16) (params : List (List UInt8)) :
    (saved flags params).length = params.length := by
  induction params generalizing flags with
  | nil => rfl
  | cons digits params ih => rw [saved, List.length_cons, ih, List.length_cons]

/-- What pushes in front of a chunk do. -/
theorem Bounded.process_pushes (h : p.Bounded) {params : List (List UInt8)}
    (hparams : ∀ digits ∈ params, Parameter digits) (b : List UInt8) :
    ∃ flags, p.process (params.flatMap pushSequence ++ b) =
      let pushed := push kittyStackLimit p.kittyScreen.stack (saved p.kittyScreen.flags params)
      let r := (p.setKittyScreen { flags := flags, stack := pushed }).process b
      (r.1, params.flatMap pushSequence ++ r.2.1, r.2.2) := by
  induction params generalizing p with
  | nil =>
    refine ⟨p.kittyScreen.flags, ?_⟩
    have hstack : push kittyStackLimit p.kittyScreen.stack [] = p.kittyScreen.stack := by
      rw [push_of_fits h.kittyScreen.stack, List.append_nil]
    have hsame : p.setKittyScreen
        { flags := p.kittyScreen.flags, stack := p.kittyScreen.stack } = p :=
      setKittyScreen_kittyScreen
    simp only [saved, hstack, hsame, List.flatMap_nil, List.nil_append]
  | cons digits params ih =>
    have hpush := observes_push (hparams digits List.mem_cons_self)
    obtain ⟨flags, hrest⟩ := ih (h.kittyPush (paramValue digits))
      fun d hd => hparams d (List.mem_cons_of_mem digits hd)
    refine ⟨flags, ?_⟩
    rw [List.flatMap_cons, List.append_assoc, hpush.process_append, hrest]
    -- The stack after the first push and then the others is the stack after all of them.
    rw [kittyPush_eq h.kittyScreen.stack]
    simp only [kittyScreen_setKittyScreen, setKittyScreen_setKittyScreen, push_push,
      List.singleton_append, saved, List.append_assoc]

/-- A pop of as many as were pushed. -/
theorem kittyPop_pushed {flags last : UInt16} {elements : List UInt16} {count : UInt16}
    (hcount : count.toNat = elements.length) (hhead : elements.head? = some flags)
    (hlimit : elements.length ≤ kittyStackLimit) (stack : List UInt16) :
    (p.setKittyScreen { flags := last, stack := push kittyStackLimit stack elements }).kittyPop
        count =
      p.setKittyScreen
        { flags := flags, stack := stack.rtake (kittyStackLimit - elements.length) } := by
  have hpos : 1 ≤ elements.length := by
    cases elements with
    | nil => cases hhead
    | cons flags elements => exact Nat.le_add_left 1 _
  have hfits : ¬ elements.length > (push kittyStackLimit stack elements).length := by
    rw [length_push]
    omega
  simp only [kittyPop, hcount, Nat.max_eq_left hpos, kittyScreen_setKittyScreen,
    setKittyScreen_setKittyScreen, if_neg hfits, List.getD_eq_getElem?_getD, getElem?_push hlimit,
    hhead, take_push hlimit, Option.getD_some]

/-- Up to as many pushes as the stack has room for, and their pop. -/
theorem Bounded.restores (h : p.Bounded) {params : List (List UInt8)} (hne : params ≠ [])
    (hlimit : params.length ≤ kittyStackLimit) (hparams : ∀ digits ∈ params, Parameter digits) :
    p.Restores params := by
  obtain ⟨hdecimal, hvalue⟩ := parameter_decimal hlimit
  obtain ⟨last, hpushes⟩ := h.process_pushes hparams (popSequence (decimal params.length))
  have hhead : (saved p.kittyScreen.flags params).head? = some p.kittyScreen.flags := by
    cases params with
    | nil => exact absurd rfl hne
    | cons digits params => rfl
  have hcount : (paramValue (decimal params.length)).toNat =
      (saved p.kittyScreen.flags params).length := by rw [hvalue, length_saved]
  have hpop := (observes_pop hdecimal).process (p.setKittyScreen
    { flags := last
      stack := push kittyStackLimit p.kittyScreen.stack (saved p.kittyScreen.flags params) })
  have hpopped := @kittyPop_pushed p _ last _ _ hcount hhead (by rwa [length_saved])
    p.kittyScreen.stack
  have hkept : p.kittyScreen.stack.rtake (kittyStackLimit - params.length) =
      p.kittyScreen.stack.rtake
        (min p.kittyScreen.stack.length (kittyStackLimit - params.length)) := by
    rw [List.rtake, List.rtake]
    congr 1
    omega
  rw [length_saved] at hpopped
  rw [Restores, hpushes]
  dsimp only
  rw [hpop, hpopped, hkept]

/-- **The kitty keyboard model is a bounded stack.** -/
theorem kitty_bounded_stack (calls : List ProxyCall) :
    (after calls).Bounded ∧
      ∀ params : List (List UInt8), params ≠ [] → params.length ≤ kittyStackLimit →
        (∀ digits ∈ params, (∀ b ∈ digits, isDigit b = true) ∧ digits.length ≤ 253) →
          (after calls).Restores params := by
  refine ⟨bounded_after calls, ?_⟩
  intro params hne hlimit hparams
  exact (bounded_after calls).restores hne hlimit fun digits hd =>
    ⟨(hparams digits hd).1, (hparams digits hd).2⟩

/-- Two pushes on a full stack. -/
theorem kitty_bounded_stack_full :
    (after [.process ((List.replicate 17 (ascii "7")).flatMap pushSequence)]).Restores
      [ascii "1", ascii "99999"] :=
  (kitty_bounded_stack [.process ((List.replicate 17 (ascii "7")).flatMap pushSequence)]).2
    [ascii "1", ascii "99999"] (by simp) (by decide) (by decide +kernel)

/-- A parameter that makes the sequence longer than the proxy follows. -/
def endlessParameter : List UInt8 := List.replicate 254 0x31

/-- The push with it is not seen, and the pop takes the flags from before it. -/
theorem kitty_unseen_push :
    ¬ ∀ calls : List ProxyCall, (after calls).Bounded ∧
      ∀ params : List (List UInt8), params ≠ [] → params.length ≤ kittyStackLimit →
        (∀ digits ∈ params, ∀ b ∈ digits, isDigit b = true) → (after calls).Restores params := by
  intro h
  have hrestores := (h [.process (pushSequence (ascii "1"))]).2 [endlessParameter] (by simp)
    (by decide) (by decide +kernel)
  exact absurd hrestores (by decide +kernel)

end CapabilityProxy

end OpenabPty
