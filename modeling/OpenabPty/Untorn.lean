import OpenabPty.Partition

/-!
# Chunks that stripping does not tear (`capproxy.rs`)

Stripping joins the bytes on either side of a query. What is kept settles when neither a query nor
a sequence that can move the kitty model stands torn around a query that the proxy answers.
-/

namespace OpenabPty

open Scanner Splice

namespace CapabilityProxy

/-- Whether a CSI sequence can move the kitty model: a push, a pop, a set, or a switch between the
screens. -/
def movesKitty (marker : Option UInt8) (params : List UInt8) (final : UInt8) : Bool :=
  match parseParams params with
  | none => false
  | some pars =>
    match marker, final with
    | some 0x3e, 0x75 | some 0x3c, 0x75 => true
    | some 0x3d, 0x75 => ([1, 2, 3] : List UInt16).contains ((pars[1]?).getD 1)
    | some 0x3f, 0x68 | some 0x3f, 0x6c => pars.any fun m => m = 47 || m = 1047 || m = 1049
    | _, _ => false

/-- The length of the sequence that `s` starts with, if it can move the kitty model. -/
def kitty? (s : List UInt8) : Option Nat :=
  if s.head? ≠ some esc then none
  else
    match (s[1]? : Option UInt8) with
    | some 0x5b =>
      match finalByte (fun b => 0x30 ≤ b && b ≤ 0x3b) (paramsStart s) (s.drop (paramsStart s)) with
      | some (i, b) =>
        if movesKitty (csiMarker s) ((s.drop (paramsStart s)).take (i - paramsStart s)) b then
          some (i + 1)
        else none
      | none => none
    | some 0x63 => some 2
    | _ => none

/-! ## What moves the kitty model -/

variable {s t chunk : List UInt8} {n : Nat}

/-- A kitty sequence has a private marker. -/
theorem movesKitty_none (params : List UInt8) (final : UInt8) :
    movesKitty none params final = false := by
  unfold movesKitty
  split <;> rfl

theorem dispatchCsi_of_still {marker : Option UInt8} {params : List UInt8} {final : UInt8}
    (h : movesKitty marker params final = false) (p : CapabilityProxy) (len : Nat) :
    (p.dispatchCsi marker params final len).1 = p := by
  unfold movesKitty at h
  unfold dispatchCsi
  cases hpars : parseParams params with
  | none => rfl
  | some pars =>
    rw [hpars] at h
    dsimp only at h ⊢
    split
    case h_6 => cases h
    case h_7 =>
      -- A set with another mode than the three there are.
      unfold kittySet
      dsimp only
      split <;> simp_all
    case h_8 => cases h
    case h_9 | h_10 =>
      have hnone : (pars.any fun m => m = 47 || m = 1047 || m = 1049) = false := h
      rw [bufferModes, hnone, if_neg Bool.false_ne_true]
    all_goals (try split_ifs) <;> rfl

theorem dispatchCsi_of_moves {marker : Option UInt8} {params : List UInt8} {final : UInt8}
    (h : movesKitty marker params final = true) (p : CapabilityProxy) (len : Nat) :
    (p.dispatchCsi marker params final len).2 = .observed len := by
  unfold movesKitty at h
  unfold dispatchCsi
  cases hpars : parseParams params with
  | none => rfl
  | some pars =>
    rw [hpars] at h
    dsimp only at h ⊢
    split at h
    case h_6 => cases h
    all_goals rfl

/-- What is no kitty sequence leaves the model alone. -/
theorem examine_of_still (h : kitty? s = none) (p : CapabilityProxy) :
    Agrees p (p.examine s).1 := by
  by_cases hesc : s.head? = some esc
  · have hstill : (p.inspect s).1 = p := by
      rw [kitty?, if_neg (not_not.mpr hesc)] at h
      unfold inspect
      split at h
      · rename_i hcsi
        simp only [hcsi]
        rcases inspectCsi_cases s with hunknown | ⟨i, b, hf, hdispatch⟩
        · rw [hunknown]
        · rw [hf] at h
          dsimp only at h
          split_ifs at h with hmoves
          rw [hdispatch]
          exact dispatchCsi_of_still (Bool.eq_false_iff.mpr hmoves) p _
      · cases h
      · rename_i hcsi hris
        split
        · exact absurd ‹_› hcsi
        · rfl
        · exact absurd ‹_› hris
        · rfl
    rw [examine_of_esc p hesc, hstill]
    cases (p.inspect s).2 with
    | answer consume response => exact agrees_answered p _
    | observed len => exact .refl p
    | unknown => exact .refl p
  · rw [examine, if_pos hesc]
    exact .refl p

/-- A kitty sequence is observed. -/
theorem inspect_of_kitty (h : kitty? s = some n) (p : CapabilityProxy) :
    s.head? = some esc ∧ (p.inspect s).2 = .observed n := by
  unfold kitty? at h
  split_ifs at h with hesc
  refine ⟨not_not.mp hesc, ?_⟩
  unfold inspect
  split at h
  · rename_i hcsi
    simp only [hcsi]
    split at h
    · rename_i i b hf
      split_ifs at h with hmoves
      obtain rfl := Option.some.inj h
      have hmarker : ¬ ((csiMarker s).isNone ∧ s[2]? = some 0x3a) := by
        rintro ⟨hnone, -⟩
        rw [Option.isNone_iff_eq_none.mp hnone] at hmoves
        exact Bool.false_ne_true ((movesKitty_none _ _).symm.trans hmoves)
      rw [inspectCsi, if_neg hmarker, hf]
      exact dispatchCsi_of_moves hmoves p _
    · cases h
  · rename_i hris
    obtain rfl := Option.some.inj h
    simp only [hris]
  · cases h

/-- A query is answered by its own bytes. -/
theorem query?_own (h : query? s = some n) :
    1 < n ∧ n ≤ s.length ∧ ∀ tail, query? (s.take n ++ tail) = some n := by
  obtain ⟨response, hstrip⟩ := examine_of_query h new
  obtain ⟨hesc, hanswer, -⟩ := examine_eq_strip hstrip
  rcases new.inspect_own s with hunknown | ⟨len, hlt, hle, htaken, -⟩
  · rw [hunknown] at hanswer
    cases hanswer
  · obtain rfl : len = n := by
      rw [hanswer] at htaken
      rcases htaken with ⟨response', heq⟩ | heq
      · exact (Inspection.answer.inj heq).1.symm
      · cases heq
    refine ⟨hlt, hle, fun tail => ?_⟩
    have hlen : (new.examine s).2.length = len := by
      rw [hstrip]
      rfl
    have hown := own_examine new s (by simp [hstrip]) tail
    rw [hlen, hstrip] at hown
    rw [query?, hown]

theorem query?_local : Local query? where
  pos h := Nat.zero_lt_of_lt (query?_own h).1
  le h := (query?_own h).2.1
  own h := (query?_own h).2.2

/-- A kitty sequence is one by its own bytes. -/
theorem kitty?_own (h : kitty? s = some n) :
    1 < n ∧ n ≤ s.length ∧ ∀ tail, kitty? (s.take n ++ tail) = some n := by
  have hfront : ∀ len tail, 1 < len → len ≤ s.length →
      (s.take len ++ tail).head? = s.head? ∧ (s.take len ++ tail)[1]? = s[1]? := by
    intro len tail hlt hle
    rw [List.head?_eq_getElem?, List.head?_eq_getElem?,
      getElem?_take_append tail (Nat.zero_lt_of_lt hlt) hle, getElem?_take_append tail hlt hle]
    exact ⟨rfl, rfl⟩
  have hwhole := h
  rw [kitty?] at h
  split_ifs at h with hesc
  split at h
  · rename_i hcsi
    split at h
    · rename_i j b hf
      split_ifs at h with hmoves
      obtain rfl := Option.some.inj h
      obtain ⟨hlt, hle⟩ := csi_length hf
      refine ⟨by omega, hle, fun tail => ?_⟩
      obtain ⟨hhead, hsecond⟩ := hfront (j + 1) tail (by omega) hle
      obtain ⟨hmarker, hstart, hfinal, hparams⟩ := csi_own tail hf
      rw [kitty?, hhead, if_neg hesc, hsecond]
      simp only [hcsi, hstart, hfinal, hmarker, hparams, hmoves, if_true]
    · cases h
  · rename_i hris
    obtain rfl := Option.some.inj h
    have hle : 2 ≤ s.length := (List.getElem?_eq_some_iff.mp hris).1
    refine ⟨Nat.lt_succ_self 1, hle, fun tail => ?_⟩
    obtain ⟨hhead, hsecond⟩ := hfront 2 tail (Nat.lt_succ_self 1) hle
    rw [kitty?, hhead, if_neg hesc, hsecond]
    simp only [hris]
  · cases h

theorem kitty?_local : Local kitty? where
  pos h := Nat.zero_lt_of_lt (kitty?_own h).1
  le h := (kitty?_own h).2.1
  own h := (kitty?_own h).2.2

/-- A kitty sequence moves the model as its own bytes do. -/
theorem examine_kitty (h : kitty? s = some n) (p : CapabilityProxy) (tail : List UInt8) :
    p.examine (s.take n ++ tail) = p.examine s := by
  obtain ⟨hesc, hobserved⟩ := inspect_of_kitty h p
  have hexamine : p.examine s = ((p.inspect s).1, .pass n) := by
    rw [examine_of_esc p hesc, hobserved]
    rfl
  have hown := own_examine p s (by
    rw [hexamine]
    intro heq
    have hone := Action.pass.inj (Prod.mk.inj heq).2
    have hlt := (kitty?_own h).1
    omega) tail
  rwa [show (p.examine s).2.length = n by rw [hexamine]; rfl] at hown

/-- No query starts within a kitty sequence. -/
theorem query?_within_kitty (h : kitty? s = some n) (hquery : query? s = none) {i : Nat}
    (hi : i < n) : query? (s.drop i) = none := by
  obtain ⟨plain, tail, htail, hlen, hplain⟩ := plain_of_observed (inspect_of_kitty h new).2
  cases i with
  | zero => exact hquery
  | succ i =>
    have hin : i < plain.length := by omega
    rw [← List.drop_tail, htail, List.drop_append_of_le_length (Nat.le_of_lt hin),
      List.drop_eq_getElem_cons hin, List.cons_append, query?,
      examine_of_ne_esc new (hplain _ (List.getElem_mem hin))]

/-! ## What is left of an untorn chunk -/

/-- What is left of a chunk is the chunk with its queries cut out. -/
theorem left_eq_cut (skip : Nat) (chunk : List UInt8) : left skip chunk = cut query? skip chunk := by
  induction chunk generalizing skip with
  | nil => cases skip <;> simp [left]
  | cons b rest ih =>
    cases skip with
    | succ skip => exact ih skip
    | zero =>
      cases hq : query? (b :: rest) with
      | some n => simp only [left, cut, hq, ih]
      | none => simp only [left, cut, hq, ih]

theorem survivors_skip (skip : Nat) (chunk : List UInt8) :
    survivors skip chunk = survivors 0 (chunk.drop skip) := by
  induction skip generalizing chunk with
  | zero => rfl
  | succ skip ih =>
    cases chunk with
    | nil => simp [survivors]
    | cons b rest => exact ih rest

/-- A survivor is a place that the walk keeps. -/
theorem keeps_of_mem_survivors {x : List UInt8 × List UInt8} (hx : x ∈ survivors 0 chunk) :
    ∃ u, Keeps query? chunk u x.1 ∧ query? x.1 = none ∧ x.2 = cut query? 0 x.1 := by
  induction hlen : chunk.length using Nat.strongRecOn generalizing chunk with
  | _ m ih =>
    subst hlen
    cases chunk with
    | nil => simp [survivors] at hx
    | cons b rest =>
      cases hq : query? (b :: rest) with
      | some n =>
        have hpos := query?_local.pos hq
        obtain ⟨k, rfl⟩ : ∃ k, n = k + 1 := ⟨n - 1, by omega⟩
        simp only [survivors, hq, Nat.add_sub_cancel] at hx
        rw [survivors_skip] at hx
        have hlt : (rest.drop k).length < (b :: rest).length := by
          rw [List.length_drop, List.length_cons]
          omega
        obtain ⟨u, hkeeps, hnone, hcut⟩ := ih _ hlt hx rfl
        exact ⟨u, .skip hq hkeeps, hnone, hcut⟩
      | none =>
        simp only [survivors, hq] at hx
        rcases List.mem_cons.mp hx with rfl | hx
        · exact ⟨[], .done _, hq, by rw [cut_of_keep hq, left_eq_cut]⟩
        · obtain ⟨u, hkeeps, hnone, hcut⟩ := ih rest.length (by simp) hx rfl
          exact ⟨b :: u, .keep hq hkeeps, hnone, hcut⟩

/-- Where no kitty sequence is torn, what is left moves the model as the chunk does, place by
place. -/
theorem examine_survivor (htorn : ¬ TornAround query? kitty? chunk)
    {x : List UInt8 × List UInt8} (hx : x ∈ survivors 0 chunk) (p : CapabilityProxy) :
    Agrees (p.examine x.2).1 (p.examine x.1).1 := by
  obtain ⟨u, hkeeps, hnone, hleft⟩ := keeps_of_mem_survivors hx
  obtain ⟨t, v⟩ := x
  dsimp only at hkeeps hnone hleft ⊢
  subst hleft
  cases ht : kitty? t with
  | some n =>
    -- The sequence is left in one piece.
    have hfront := Keeps.of_take (kitty?_local.le ht) fun i hi => query?_within_kitty ht hnone hi
    rw [hfront.cut_eq query?_local, examine_kitty ht]
    exact .refl _
  | none =>
    cases hcut : kitty? (cut query? 0 t) with
    | none =>
      have hleft := examine_of_still hcut p
      exact Agrees.trans ⟨hleft.1.symm, hleft.2.symm⟩ (examine_of_still ht p)
    | some n =>
      exfalso
      obtain ⟨t', hstill, -, ⟨tail, htail⟩ | hshape⟩ :=
        hkeeps.solid_or_tornAround query?_local kitty?_local hcut
      · have hown := kitty?_local.own hcut tail
        rw [htail, ← hstill.eq_of_nil hnone, ht] at hown
        cases hown
      · exact htorn hshape

theorem observe_congr {l : List (List UInt8 × List UInt8)}
    (h : ∀ x ∈ l, ∀ p : CapabilityProxy, Agrees (p.examine x.2).1 (p.examine x.1).1)
    (p : CapabilityProxy) :
    Agrees (p.observe (l.map Prod.snd)) (p.observe (l.map Prod.fst)) := by
  induction l generalizing p with
  | nil => exact .refl p
  | cons x l ih =>
    have hx := h x List.mem_cons_self p
    exact (ih (fun y hy => h y (List.mem_cons_of_mem x hy)) _).trans (hx.observe _)

/-- An untorn chunk is left without a query. -/
theorem query?_survivor (htorn : ¬ Torn query? chunk) {x : List UInt8 × List UInt8}
    (hx : x ∈ survivors 0 chunk) : query? x.2 = none := by
  obtain ⟨u, hkeeps, -, hleft⟩ := keeps_of_mem_survivors hx
  rw [hleft]
  exact (clean_cut_iff query?_local).mpr htorn u _ (hkeeps.cut_eq query?_local)

/-- An untorn chunk is left without a seam. -/
theorem seamless_of_untorn (hquery : ¬ Torn query? chunk)
    (hkitty : ¬ TornAround query? kitty? chunk) (p : CapabilityProxy) : p.Seamless chunk :=
  ⟨fun _ hx => query?_survivor hquery hx, observe_congr (fun _ hx => examine_survivor hkitty hx) p⟩

theorem process_eq_cut (p : CapabilityProxy) (chunk : List UInt8) :
    (p.process chunk).2.1 = cut query? 0 chunk := by
  rw [process_kept, left_eq_cut]

/-- A second pass answers nothing and keeps everything exactly when no query of the chunk stands
torn around one that is answered, and what is kept settles if no kitty sequence does either. -/
theorem settles_of_untorn (p : CapabilityProxy) (chunk : List UInt8) :
    ((p.process (p.process chunk).2.1).2.2 = [] ∧
        (p.process (p.process chunk).2.1).2.1 = (p.process chunk).2.1 ↔ ¬ Torn query? chunk) ∧
      (¬ Torn query? chunk → ¬ TornAround query? kitty? chunk → p.Settles chunk) := by
  refine ⟨⟨fun h => ?_, fun htorn => ⟨?_, ?_⟩⟩, fun hquery hkitty =>
    (settles_iff_seamless p chunk).mpr (seamless_of_untorn hquery hkitty p)⟩
  · rw [← clean_cut_iff query?_local, ← cut_idempotent_iff query?_local]
    simpa only [process_eq_cut] using h.2
  · rw [process_eq_cut, ← left_eq_cut, process_eq_scan, scan_left fun _ hx => query?_survivor htorn hx]
    rfl
  · rw [process_eq_cut, process_eq_cut]
    exact (cut_idempotent_iff query?_local).mpr ((clean_cut_iff query?_local).mpr htorn)

/-- A query and a push behind it. -/
theorem settles_queryThenPush : new.Settles (ascii "\x1b[c\x1b[>5u") := by
  have hrest : ((List.range 8).all fun k =>
      (query? ((ascii "\x1b[c\x1b[>5u").drop (k + 1))).isNone) = true := by decide
  have hfront : ∀ found, ¬ TornAround query? found (ascii "\x1b[c\x1b[>5u") := by
    intro found
    refine not_tornAround_of_front fun k hpos hle => ?_
    have hle : k ≤ 8 := hle
    have hmem : k - 1 ∈ List.range 8 := List.mem_range.mpr (by omega)
    have hnone := List.all_eq_true.mp hrest (k - 1) hmem
    rw [Nat.sub_add_cancel hpos] at hnone
    exact Option.isNone_iff_eq_none.mp hnone
  exact (settles_of_untorn new _).2 (hfront query?) (hfront kitty?)

/-- A primary device attributes query inside the introducer of another one: what is left of
the two is a query. -/
theorem nestedQuery_unsettled : ¬ new.Settles (ascii "\x1b[\x1b[cc") := by decide

end CapabilityProxy

end OpenabPty
