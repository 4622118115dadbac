import OpenabPty.CapProxy
import OpenabPty.TermFilter

/-!
# The filter mirrors the proxy

Every reply of the proxy is a response shape of the filter, alone and in any concatenation.
-/

namespace OpenabPty

open Scanner

/-! ## Response shapes -/

/-- A response that the filter takes as a whole, whatever follows it. -/
theorem TermFilter.swallowed_of_classify {r : List UInt8} (hr : r.head? = some esc)
    (h : ∀ tail, classify (r ++ tail) = some r.length) : Swallowed inspect r := by
  have hne : r ≠ [] := by
    rintro rfl
    cases hr
  refine Swallowed.of_strip hne fun f tail => ?_
  have hhead : (r ++ tail).head? = some esc := by
    rw [List.head?_append, hr]
    rfl
  simp only [inspect, hhead, h tail]
  exact ⟨_, (), rfl⟩

/-- A CSI response. -/
theorem TermFilter.swallowed_csi {params : List UInt8} {b : UInt8}
    (hparams : ∀ c ∈ params, (0x20 ≤ c && c ≤ 0x3f) = true) (hlen : params.length ≤ 254)
    (hb : b = 0x63 ∨ b = 0x6e ∨ (b = 0x75 ∧ params.head? = some 0x3f) ∨
      (b = 0x7b ∧ 0x2a ∈ params)) :
    Swallowed inspect (esc :: 0x5b :: (params ++ [b])) := by
  refine swallowed_of_classify rfl fun tail => ?_
  have hfinal : (0x20 ≤ b && b ≤ 0x3f) = false ∧ 0x40 ≤ b ∧ b ≤ 0x7e := by
    rcases hb with rfl | rfl | ⟨rfl, -⟩ | ⟨rfl, -⟩ <;> decide
  have hfound := finalByte_of_params tail hparams hfinal.1 hfinal.2
    (show 2 + params.length ≤ maxSequenceLen by rw [maxSequenceLen]; omega)
  have hdrop : (esc :: 0x5b :: (params ++ [b]) ++ tail).drop 2 = params ++ b :: tail := by simp
  have hclass : classify (esc :: 0x5b :: (params ++ [b]) ++ tail) =
      classifyCsi (esc :: 0x5b :: (params ++ [b]) ++ tail) := rfl
  rw [hclass, classifyCsi, hdrop, hfound]
  have hthird : params.head? = some 0x3f →
      (esc :: 0x5b :: (params ++ [b]) ++ tail)[2]? = some 0x3f := by
    intro hq
    cases params with
    | nil => cases hq
    | cons c params => exact hq
  have htake : (params ++ b :: tail).take (2 + params.length - 2) = params := by simp
  simp only [htake]
  rw [if_pos]
  · simp only [List.length_cons, List.length_append, List.length_nil]
    congr 1
    omega
  · rcases hb with hc | hn | ⟨hu, hq⟩ | hsum
    · exact .inl hc
    · exact .inr (.inl hn)
    · exact .inr (.inr (.inl ⟨hu, hthird hq⟩))
    · exact .inr (.inr (.inr hsum))

/-- An OSC response. -/
theorem TermFilter.swallowed_osc {payload t : List UInt8}
    (hpayload : ∀ c ∈ payload, c ≠ bel ∧ c ≠ esc) (hlen : payload.length ≤ 254)
    (hps : payload.takeWhile isDigit = ascii "10" ∨ payload.takeWhile isDigit = ascii "11" ∨
      payload.takeWhile isDigit = ascii "12")
    (hrgb : (ascii ";rgb:").isPrefixOf (payload.dropWhile isDigit)) (ht : IsTerminator t) :
    Swallowed inspect (esc :: 0x5d :: (payload ++ t)) := by
  refine swallowed_of_classify rfl fun tail => ?_
  have hfound := stringSequence_of_payload esc 0x5d tail hpayload ht
    (show 2 + payload.length ≤ maxSequenceLen by rw [maxSequenceLen]; omega)
  have hclass : classify (esc :: 0x5d :: (payload ++ t) ++ tail) =
      classifyOsc (esc :: 0x5d :: (payload ++ (t ++ tail))) := by
    rw [← List.append_assoc]
    rfl
  have hne : payload.takeWhile isDigit ≠ [] := by
    rcases hps with h | h | h <;> rw [h] <;> decide
  have hsemi : (payload.dropWhile isDigit).head? = some 0x3b := by
    obtain ⟨rest, hrest⟩ := List.isPrefixOf_iff_prefix.mp hrgb
    rw [← hrest]
    rfl
  rw [hclass, classifyOsc, hfound]
  simp only [hne, hsemi, ne_eq, not_true_eq_false, or_self, if_false]
  rw [if_pos ⟨hps, .inl hrgb⟩]
  simp only [List.length_cons, List.length_append]
  congr 1
  omega

/-- A DCS response. -/
theorem TermFilter.swallowed_dcs {payload t : List UInt8}
    (hpayload : ∀ c ∈ payload, c ≠ bel ∧ c ≠ esc) (hlen : payload.length ≤ 254)
    (hsum : (ascii "!~").isPrefixOf (payload.dropWhile isDigit)) (ht : IsTerminator t) :
    Swallowed inspect (esc :: 0x50 :: (payload ++ t)) := by
  refine swallowed_of_classify rfl fun tail => ?_
  have hfound := stringSequence_of_payload esc 0x50 tail hpayload ht
    (show 2 + payload.length ≤ maxSequenceLen by rw [maxSequenceLen]; omega)
  have hclass : classify (esc :: 0x50 :: (payload ++ t) ++ tail) =
      classifyDcs (esc :: 0x50 :: (payload ++ (t ++ tail))) := by
    rw [← List.append_assoc]
    rfl
  rw [hclass, classifyDcs, hfound]
  simp only [hsum, if_true, List.length_cons, List.length_append]
  congr 1
  omega

/-! ## The replies of the proxy -/

/-- A digit is a parameter byte and no control byte. -/
theorem digit_bounds {b : UInt8} (h : isDigit b = true) :
    (0x20 ≤ b && b ≤ 0x3f) = true ∧ b ≠ bel ∧ b ≠ esc := by
  simp only [isDigit, Bool.and_eq_true, decide_eq_true_eq, UInt8.le_iff_toNat_le] at h
  obtain ⟨hlo, hhi⟩ := h
  have hlo : 48 ≤ b.toNat := hlo
  have hhi : b.toNat ≤ 57 := hhi
  refine ⟨?_, ?_, ?_⟩
  · simp only [Bool.and_eq_true, decide_eq_true_eq, UInt8.le_iff_toNat_le]
    exact ⟨Nat.le_trans (by decide) hlo, Nat.le_trans hhi (by decide)⟩
  · rintro rfl
    exact absurd hlo (by decide)
  · rintro rfl
    exact absurd hlo (by decide)

theorem length_decimal_uint16 (n : UInt16) : (decimal n.toNat).length ≤ 5 :=
  length_decimal_le (by decide) (Nat.lt_trans n.toNat_lt (by decide))

/-- The kitty flag report, for any flags. -/
theorem swallowed_kittyReport (flags : UInt16) : Swallowed TermFilter.inspect
    (ascii "\x1b[?" ++ decimal flags.toNat ++ ascii "u") := by
  have hlen := length_decimal_uint16 flags
  refine @TermFilter.swallowed_csi (0x3f :: decimal flags.toNat) 0x75 ?_ ?_ ?_
  · intro c hc
    rcases List.mem_cons.mp hc with rfl | hc
    · decide
    · exact (digit_bounds (isDigit_of_mem_decimal hc)).1
  · rw [List.length_cons]
    omega
  · exact .inr (.inr (.inl ⟨rfl, rfl⟩))

/-- The macro checksum report, for any memory id. -/
theorem swallowed_macroChecksum (id : UInt16) : Swallowed TermFilter.inspect
    (ascii "\x1bP" ++ decimal id.toNat ++ ascii "!~0000\x1b\\") := by
  have hlen := length_decimal_uint16 id
  have heq : ascii "\x1bP" ++ decimal id.toNat ++ ascii "!~0000\x1b\\" =
      esc :: 0x50 :: (decimal id.toNat ++ ascii "!~0000" ++ [esc, 0x5c]) := by
    simp [ascii, esc]
  rw [heq]
  refine TermFilter.swallowed_dcs ?_ ?_ ?_ (.inr rfl)
  · intro c hc
    rcases List.mem_append.mp hc with hc | hc
    · exact (digit_bounds (isDigit_of_mem_decimal hc)).2
    · have hfix : (ascii "!~0000").all (fun c => c ≠ bel && c ≠ esc) = true := by decide
      simpa using List.all_eq_true.mp hfix c hc
  · have hfix : (ascii "!~0000").length = 6 := by decide
    rw [List.length_append, hfix]
    omega
  · rw [List.dropWhile_append_of_pos fun c hc => isDigit_of_mem_decimal hc]
    decide

/-- A colour report, with either terminator. -/
theorem swallowed_colourReport {target : Nat} {colour t : List UInt8}
    (h : slotColour target = some colour) (ht : IsTerminator t) :
    Swallowed TermFilter.inspect (colourReport (10 + target) colour t) := by
  have hslot : ∀ payload : List UInt8, (payload.all fun c => c ≠ bel && c ≠ esc) = true →
      payload.length ≤ 254 →
      (payload.takeWhile isDigit = ascii "10" ∨ payload.takeWhile isDigit = ascii "11" ∨
        payload.takeWhile isDigit = ascii "12") →
      (ascii ";rgb:").isPrefixOf (payload.dropWhile isDigit) →
      Swallowed TermFilter.inspect (esc :: 0x5d :: (payload ++ t)) := by
    intro payload hall hlen hps hrgb
    refine TermFilter.swallowed_osc (fun c hc => ?_) hlen hps hrgb ht
    simpa using List.all_eq_true.mp hall c hc
  match target, h with
  | 0, h =>
    obtain rfl := Option.some.inj h
    exact hslot (ascii "10;rgb:c7c7/c7c7/c7c7") (by decide) (by decide) (by decide) (by decide)
  | 1, h =>
    obtain rfl := Option.some.inj h
    exact hslot (ascii "11;rgb:1e1e/1e1e/1e1e") (by decide) (by decide) (by decide) (by decide)
  | 2, h =>
    obtain rfl := Option.some.inj h
    exact hslot (ascii "12;rgb:c7c7/c7c7/c7c7") (by decide) (by decide) (by decide) (by decide)

/-- The reports of any number of colour groups. -/
theorem swallowed_faceColours {t : List UInt8} (ht : IsTerminator t)
    {groups : List (List UInt8)} {target : Nat} {response : List UInt8}
    (h : faceColours t target groups = some response) : Swallowed TermFilter.inspect response := by
  induction groups generalizing target response with
  | nil =>
    obtain rfl := Option.some.inj h
    exact Swallowed.nil
  | cons group groups ih =>
    rw [faceColours] at h
    split_ifs at h with hq hset
    · split at h
      · rename_i colour hcolour
        obtain ⟨rest, hrest, rfl⟩ := Option.map_eq_some_iff.mp h
        exact (swallowed_colourReport hcolour ht).append (ih hrest)
      · exact ih h
    · exact ih h

/-- The answer to a colour query. -/
theorem swallowed_oscQuery {s : List UInt8} {len : Nat} {response : List UInt8}
    (h : classifyOscQuery s = some (.answer len response)) :
    Swallowed TermFilter.inspect response := by
  rw [classifyOscQuery] at h
  split at h
  · cases h
  · rename_i payload n hfound
    have hterm : IsTerminator (if s[n - 1]? = some bel then [bel] else ascii "\x1b\\") := by
      split
      · exact .inl rfl
      · exact .inr rfl
    dsimp only at h
    generalize (if s[n - 1]? = some bel then [bel] else ascii "\x1b\\") = terminator at h hterm
    split at h
    · cases h
    · split at h
      · cases h
      · split at h
        · obtain ⟨colours, hcolours, heq⟩ := Option.map_eq_some_iff.mp h
          obtain ⟨rfl, rfl⟩ := Inspection.answer.inj heq
          exact swallowed_faceColours hterm hcolours
        · cases h

/-- A fixed reply to a CSI query. -/
theorem swallowed_fixed (params : List UInt8) (b : UInt8)
    (hparams : (params.all fun c => 0x20 ≤ c && c ≤ 0x3f) = true) (hlen : params.length ≤ 254)
    (hb : b = 0x63 ∨ b = 0x6e ∨ (b = 0x7b ∧ 0x2a ∈ params)) :
    Swallowed TermFilter.inspect (esc :: 0x5b :: (params ++ [b])) := by
  refine TermFilter.swallowed_csi (fun c hc => List.all_eq_true.mp hparams c hc) hlen ?_
  rcases hb with hc | hn | hsum
  · exact .inl hc
  · exact .inr (.inl hn)
  · exact .inr (.inr (.inr hsum))

/-- The answers of the DEC private status family. -/
theorem swallowed_dsrPrivate {pars : List UInt16} {len consume : Nat} {response : List UInt8}
    (h : CapabilityProxy.dsrPrivate pars len = .answer consume response) :
    Swallowed TermFilter.inspect response := by
  rw [CapabilityProxy.dsrPrivate] at h
  split at h <;> cases h
  · exact swallowed_fixed (ascii "?10") 0x6e (by decide) (by decide) (by decide)
  · exact swallowed_fixed (ascii "?21") 0x6e (by decide) (by decide) (by decide)
  · exact swallowed_fixed (ascii "?27;1;0;0") 0x6e (by decide) (by decide) (by decide)
  · exact swallowed_fixed (ascii "?53") 0x6e (by decide) (by decide) (by decide)
  · exact swallowed_fixed (ascii "?57;1") 0x6e (by decide) (by decide) (by decide)
  · exact swallowed_fixed (ascii "0*") 0x7b (by decide) (by decide) (by decide)
  · exact swallowed_macroChecksum _
  · exact swallowed_fixed (ascii "?70") 0x6e (by decide) (by decide) (by decide)
  · exact swallowed_fixed (ascii "?83") 0x6e (by decide) (by decide) (by decide)

/-- The answer to a CSI query. -/
theorem swallowed_dispatchCsi {p : CapabilityProxy} {marker : Option UInt8} {params : List UInt8}
    {final : UInt8} {len consume : Nat} {response : List UInt8}
    (h : (p.dispatchCsi marker params final len).2 = .answer consume response) :
    Swallowed TermFilter.inspect response := by
  rw [CapabilityProxy.dispatchCsi] at h
  split at h
  · cases h
  · dsimp only at h
    split at h
    · split_ifs at h
      cases h
      exact swallowed_fixed (ascii "?65;4;1;2;6;21;22;17;28") 0x63 (by decide) (by decide)
        (by decide)
    · split_ifs at h
      cases h
      exact swallowed_fixed (ascii ">65;20;1") 0x63 (by decide) (by decide) (by decide)
    · split_ifs at h
      cases h
      exact swallowed_fixed (ascii "0") 0x6e (by decide) (by decide) (by decide)
    · exact swallowed_dsrPrivate h
    · cases h
      exact swallowed_kittyReport _
    all_goals cases h

/-- Every answer of the proxy. -/
theorem swallowed_answer {p : CapabilityProxy} {s : List UInt8} {consume : Nat}
    {response : List UInt8} (h : (p.inspect s).2 = .answer consume response) :
    Swallowed TermFilter.inspect response := by
  rw [CapabilityProxy.inspect] at h
  split at h
  · rcases CapabilityProxy.inspectCsi_cases s with hunknown | ⟨i, b, -, hdispatch⟩
    · rw [hunknown] at h
      cases h
    · rw [hdispatch] at h
      exact swallowed_dispatchCsi h
  · cases hq : classifyOscQuery s with
    | none =>
      rw [hq] at h
      cases h
    | some inspection =>
      rw [hq] at h
      exact swallowed_oscQuery (hq.trans (congrArg some h))
  · cases h
  · cases h

/-- Whatever the proxy writes back to the child for a chunk, the filter strips all of it when
a client sends it as one chunk. -/
theorem responses_filtered (p : CapabilityProxy) (f : TermFilter) (chunk : List UInt8) :
    (f.filter (p.process chunk).2.2).2 = [] := by
  have hanswers : ∀ r ∈ (scan CapabilityProxy.examine p (.pass 0) chunk).2.2,
      Swallowed TermFilter.inspect r := by
    refine forall_mem_outputs (fun p input p' n response h => ?_) p (.pass 0) chunk
    rw [CapabilityProxy.examine] at h
    split_ifs at h with hesc
    · cases h
    · split at h <;> cases h
      rename_i q consume heq
      exact swallowed_answer (congrArg Prod.snd heq)
  have hall : Swallowed TermFilter.inspect (p.process chunk).2.2 := by
    rw [CapabilityProxy.process_eq_scan]
    exact Swallowed.flatten hanswers
  rw [TermFilter.filter_eq_scan]
  exact hall.scan_eq_nil f

end OpenabPty
