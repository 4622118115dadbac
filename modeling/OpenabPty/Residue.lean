import OpenabPty.Core.Splice
import OpenabPty.TermFilter

/-!
# What the response filter leaves behind

A response that a frame carries in one piece is stripped wherever it stands. Stripping it
joins the bytes on either side of it, and these may be a response in their turn, which the
one pass of `filter` does not look at again.
-/

namespace OpenabPty

open Splice

/-! ## A sequence is recognised by its own bytes -/

variable {param : UInt8 → Bool} {i : Nat}

/-- A final byte is found again with the bytes up to it, whatever follows them. -/
theorem finalByte_own {s : List UInt8} {j : Nat} {b : UInt8}
    (h : finalByte param i s = some (j, b)) :
    i ≤ j ∧ j + 1 - i ≤ s.length ∧
      ∀ tail, finalByte param i (s.take (j + 1 - i) ++ tail) = some (j, b) := by
  obtain ⟨params, rest, rfl, rfl, hparams, hb, hfinal, hlen⟩ := finalByte_spec h
  have htake : (params ++ b :: rest).take (i + params.length + 1 - i) = params ++ [b] := by
    rw [show i + params.length + 1 - i = params.length + 1 by omega, List.take_append,
      List.take_of_length_le (Nat.le_succ _)]
    simp
  refine ⟨by omega, ?_, ?_⟩
  · simp only [List.length_append, List.length_cons]
    omega
  · intro tail
    rw [htake, List.append_assoc]
    exact finalByte_of_params tail hparams hb hfinal hlen

/-- A terminator is found again with the bytes up to its end, whatever follows them. -/
theorem stringEnd_own {s : List UInt8} {e len : Nat} (h : stringEnd i s = some (e, len)) :
    i ≤ e ∧ e < len ∧ len - i ≤ s.length ∧
      ∀ tail, stringEnd i (s.take (len - i) ++ tail) = some (e, len) := by
  induction s generalizing i with
  | nil => cases h
  | cons b rest ih =>
    rw [stringEnd] at h
    split_ifs at h with hi hbel hesc
    · -- `BEL`
      obtain ⟨rfl, rfl⟩ := Prod.mk.inj (Option.some.inj h)
      refine ⟨Nat.le_refl i, by omega, by simp, ?_⟩
      intro tail
      rw [show i + 1 - i = 1 by omega, List.take_succ_cons, List.cons_append, stringEnd,
        if_neg hi, if_pos hbel]
    · -- `ESC \`
      obtain ⟨rfl, rfl⟩ := Prod.mk.inj (Option.some.inj h)
      obtain ⟨hb, hnext⟩ := hesc
      cases rest with
      | nil => cases hnext
      | cons c rest =>
        refine ⟨Nat.le_refl i, by omega, ?_, ?_⟩
        · simp only [List.length_cons]
          omega
        · intro tail
          rw [show i + 2 - i = 2 by omega]
          simp only [List.take_succ_cons, List.cons_append]
          rw [stringEnd, if_neg hi, if_neg hbel, if_pos ⟨hb, hnext⟩]
    · obtain ⟨hle, hlt, hlen, hown⟩ := ih h
      refine ⟨by omega, hlt, ?_, ?_⟩
      · simp only [List.length_cons]
        omega
      · intro tail
        have hsplit : len - i = len - (i + 1) + 1 := by omega
        rw [hsplit, List.take_succ_cons, List.cons_append, stringEnd, if_neg hi, if_neg hbel,
          if_neg, hown tail]
        -- The byte after this one is the same as before, and there is one.
        intro hst
        apply hesc
        refine ⟨hst.1, ?_⟩
        cases rest with
        | nil =>
          simp only [List.length_nil] at hlen
          omega
        | cons c rest =>
          rw [show len - (i + 1) = len - (i + 1) - 1 + 1 by omega, List.take_succ_cons] at hst
          exact hst.2

/-- A string sequence is found again with its own bytes, payload included. -/
theorem stringSequence_own {x y : UInt8} {body payload : List UInt8} {len : Nat}
    (h : stringSequence (x :: y :: body) 2 = some (payload, len)) :
    2 < len ∧ len ≤ body.length + 2 ∧
      ∀ tail, stringSequence ((x :: y :: body).take len ++ tail) 2 = some (payload, len) := by
  rw [stringSequence, Option.map_eq_some_iff] at h
  obtain ⟨⟨e, len'⟩, hend, hpair⟩ := h
  obtain ⟨rfl, rfl⟩ := Prod.mk.inj hpair
  obtain ⟨hle, hlt, hlen, hown⟩ := stringEnd_own hend
  have hdrop : (x :: y :: body).drop 2 = body := rfl
  simp only [hdrop] at hlen hown ⊢
  refine ⟨by omega, by omega, ?_⟩
  intro tail
  obtain ⟨k, rfl⟩ : ∃ k, len' = k + 2 := ⟨len' - 2, by omega⟩
  have hrest : ((x :: y :: body).take (k + 2) ++ tail).drop 2 = body.take (k + 2 - 2) ++ tail := rfl
  rw [stringSequence, hrest, hown tail]
  have hpayload : (body.take (k + 2 - 2) ++ tail).take (e - 2) = body.take (e - 2) := by
    rw [List.take_append_of_le_length, List.take_take]
    · congr 1
      omega
    · rw [List.length_take]
      omega
  simp only [Option.map_some, hpayload]

namespace TermFilter

/-- A CSI response is recognised by its own bytes. -/
theorem classifyCsi_own {x y : UInt8} {body : List UInt8} {n : Nat}
    (h : classifyCsi (x :: y :: body) = some n) :
    2 < n ∧ n ≤ body.length + 2 ∧
      ∀ tail, classifyCsi ((x :: y :: body).take n ++ tail) = some n := by
  have hdrop : (x :: y :: body).drop 2 = body := rfl
  rw [classifyCsi] at h
  split at h
  · cases h
  · rename_i j b hfinal
    split_ifs at h with hshape
    obtain rfl := Option.some.inj h
    obtain ⟨hle, hlen, hown⟩ := finalByte_own hfinal
    rw [hdrop] at hlen hown hshape
    obtain ⟨k, rfl⟩ : ∃ k, j = k + 2 := ⟨j - 2, by omega⟩
    refine ⟨by omega, by omega, ?_⟩
    intro tail
    have hrest : ((x :: y :: body).take (k + 2 + 1) ++ tail).drop 2 =
        body.take (k + 2 + 1 - 2) ++ tail := rfl
    have hthird : ((x :: y :: body).take (k + 2 + 1) ++ tail)[2]? = (x :: y :: body)[2]? := by
      cases body with
      | nil =>
        simp only [List.length_nil] at hlen
        omega
      | cons z body => rfl
    have hparams : (body.take (k + 2 + 1 - 2) ++ tail).take (k + 2 - 2) =
        body.take (k + 2 - 2) := by
      rw [List.take_append_of_le_length, List.take_take]
      · congr 1
        omega
      · rw [List.length_take]
        omega
    rw [classifyCsi, hrest, hown tail]
    simp only [hthird, hparams]
    rw [if_pos hshape]

/-- An OSC response is recognised by its own bytes. -/
theorem classifyOsc_own {x y : UInt8} {body : List UInt8} {n : Nat}
    (h : classifyOsc (x :: y :: body) = some n) :
    2 < n ∧ n ≤ body.length + 2 ∧
      ∀ tail, classifyOsc ((x :: y :: body).take n ++ tail) = some n := by
  rw [classifyOsc] at h
  split at h
  · cases h
  · rename_i payload len hstring
    obtain ⟨hlt, hlen, hown⟩ := stringSequence_own hstring
    dsimp only at h
    split_ifs at h with hps hshape
    obtain rfl := Option.some.inj h
    refine ⟨hlt, hlen, ?_⟩
    intro tail
    rw [classifyOsc, hown tail]
    dsimp only
    rw [if_neg hps, if_pos hshape]

/-- A DCS response is recognised by its own bytes. -/
theorem classifyDcs_own {x y : UInt8} {body : List UInt8} {n : Nat}
    (h : classifyDcs (x :: y :: body) = some n) :
    2 < n ∧ n ≤ body.length + 2 ∧
      ∀ tail, classifyDcs ((x :: y :: body).take n ++ tail) = some n := by
  rw [classifyDcs] at h
  split at h
  · cases h
  · rename_i payload len hstring
    obtain ⟨hlt, hlen, hown⟩ := stringSequence_own hstring
    split_ifs at h with hshape
    obtain rfl := Option.some.inj h
    refine ⟨hlt, hlen, ?_⟩
    intro tail
    rw [classifyDcs, hown tail]
    dsimp only
    rw [if_pos hshape]

/-- A response that is classified is longer than its introducer, lies within the bytes, and is
classified by its own bytes. -/
theorem classify_own {s : List UInt8} {n : Nat} (h : classify s = some n) :
    2 < n ∧ n ≤ s.length ∧ ∀ tail, classify (s.take n ++ tail) = some n := by
  obtain ⟨x, y, body, rfl⟩ : ∃ x y body, s = x :: y :: body := by
    cases s with
    | nil => cases h
    | cons x s =>
      cases s with
      | nil => cases h
      | cons y body => exact ⟨x, y, body, rfl⟩
  have hsecond : (x :: y :: body)[1]? = some y := rfl
  -- The introducer is among the bytes that are taken.
  have htake : ∀ k tail, (((x :: y :: body).take (k + 2) ++ tail)[1]? : Option UInt8) = some y :=
    fun k tail => rfl
  unfold classify at h
  rw [hsecond] at h
  split at h
  · rename_i hy
    obtain ⟨hlt, hlen, hown⟩ := classifyCsi_own h
    refine ⟨hlt, hlen, fun tail => ?_⟩
    obtain ⟨k, rfl⟩ : ∃ k, n = k + 2 := ⟨n - 2, by omega⟩
    simp only [classify, htake, hy]
    exact hown tail
  · rename_i hy
    obtain ⟨hlt, hlen, hown⟩ := classifyOsc_own h
    refine ⟨hlt, hlen, fun tail => ?_⟩
    obtain ⟨k, rfl⟩ : ∃ k, n = k + 2 := ⟨n - 2, by omega⟩
    simp only [classify, htake, hy]
    exact hown tail
  · rename_i hy
    obtain ⟨hlt, hlen, hown⟩ := classifyDcs_own h
    refine ⟨hlt, hlen, fun tail => ?_⟩
    obtain ⟨k, rfl⟩ : ∃ k, n = k + 2 := ⟨n - 2, by omega⟩
    simp only [classify, htake, hy]
    exact hown tail
  · cases h

/-! ## The filter cuts responses -/

/-- The length of the complete response that begins at the front of `s`, if one does. -/
def response? (s : List UInt8) : Option Nat :=
  if s.head? = some esc then classify s else none

/-- No complete response begins at any position. -/
def Spotless (bytes : List UInt8) : Prop :=
  ∀ before rest, bytes = before ++ esc :: rest → classify (esc :: rest) = none

theorem response?_local : Local response? where
  pos := by
    intro s n h
    rw [response?] at h
    split_ifs at h
    have := (classify_own h).1
    omega
  le := by
    intro s n h
    rw [response?] at h
    split_ifs at h
    exact (classify_own h).2.1
  own := by
    intro s n h tail
    rw [response?] at h
    split_ifs at h with hhead
    obtain ⟨hpos, -, hown⟩ := classify_own h
    have hkept : (s.take n ++ tail).head? = some esc := by
      cases s with
      | nil => cases hhead
      | cons b s =>
        obtain ⟨k, rfl⟩ : ∃ k, n = k + 1 := ⟨n - 1, by omega⟩
        exact hhead
    rw [response?, if_pos hkept, hown tail]

theorem spotless_iff_clean {bytes : List UInt8} : Spotless bytes ↔ Clean response? bytes := by
  constructor
  · intro h before rest hbytes
    rw [response?]
    split_ifs with hhead
    · cases rest with
      | nil => cases hhead
      | cons b rest =>
        obtain rfl : b = esc := Option.some.inj hhead
        exact h before rest hbytes
    · rfl
  · intro h before rest hbytes
    have hnone := h before (esc :: rest) hbytes
    have hhead : (esc :: rest).head? = some esc := rfl
    rwa [response?, if_pos hhead] at hnone

/-- The scan of the filter passes on what cutting the responses leaves. -/
theorem scan_eq_cut (f : TermFilter) (s : List UInt8) :
    (Scanner.scan inspect f (.pass 0) s).2.1 = cut response? 0 s := by
  induction hlen : s.length using Nat.strongRecOn generalizing f s with
  | _ m ih =>
    subst hlen
    cases s with
    | nil => simp
    | cons b rest =>
      by_cases hb : b = esc
      · cases hclass : classify (b :: rest) with
        | some n =>
          have hresponse : response? (b :: rest) = some n := by
            rw [response?, if_pos (by simp [hb]), hclass]
          have hstrip : inspect f (b :: rest) =
              ({ strippedSequences := f.strippedSequences + 1,
                 strippedBytes := f.strippedBytes + n }, .strip n ()) := by
            have hhead : ¬ (b :: rest).head? ≠ some esc := by simp [hb]
            simp only [inspect, if_neg hhead, hclass]
          obtain ⟨hpos, -, -⟩ := classify_own hclass
          rw [Scanner.scan_of_strip hstrip, cut_of_token response?_local hresponse]
          have hdrop : (b :: rest).drop n = rest.drop (n - 1) := by
            obtain ⟨k, rfl⟩ : ∃ k, n = k + 1 := ⟨n - 1, by omega⟩
            rfl
          rw [hdrop]
          refine ih _ ?_ _ _ rfl
          simp only [List.length_drop, List.length_cons]
          omega
        | none =>
          have hresponse : response? (b :: rest) = none := by
            rw [response?, if_pos (by simp [hb]), hclass]
          have hpass : inspect f (b :: rest) = (f, .pass 1) := by
            simp only [inspect, hclass]
            split <;> rfl
          rw [Scanner.scan_of_pass hpass, cut_of_keep hresponse]
          exact congrArg (b :: ·) (ih _ (by simp) f rest rfl)
      · have hresponse : response? (b :: rest) = none := by
          rw [response?, if_neg (by simp [hb])]
        have hpass : inspect f (b :: rest) = (f, .pass 1) := by
          simp [inspect, hb]
        rw [Scanner.scan_of_pass hpass, cut_of_keep hresponse]
        exact congrArg (b :: ·) (ih _ (by simp) f rest rfl)

theorem filter_eq_cut (f : TermFilter) (chunk : List UInt8) :
    (f.filter chunk).2 = cut response? 0 chunk := by
  rw [filter_eq_scan]
  exact scan_eq_cut f chunk

/-- The filter leaves no response behind, and a second pass changes nothing, exactly when no
response stands torn around one that the filter strips. -/
theorem spotless_iff_untorn (f f' : TermFilter) (chunk : List UInt8) :
    (Spotless (f.filter chunk).2 ↔ ¬ Torn response? chunk) ∧
      ((f'.filter (f.filter chunk).2).2 = (f.filter chunk).2 ↔ ¬ Torn response? chunk) := by
  rw [spotless_iff_clean, filter_eq_cut f', filter_eq_cut f, cut_idempotent_iff response?_local]
  exact ⟨clean_cut_iff response?_local, clean_cut_iff response?_local⟩

/-- `ESC [` and `c` around a device attributes response. -/
def nestedResponse : List UInt8 := [esc, 0x5b, esc, 0x5b, 0x63, 0x63]

/-- What is left of it is a device attributes response, which a second pass strips. -/
theorem nestedResponse_leaks :
    ¬ (∀ f chunk, Spotless (filter f chunk).2) ∧
      ¬ ∀ f f' chunk, (filter f' (filter f chunk).2).2 = (filter f chunk).2 := by
  have hleft : (new.filter nestedResponse).2 = [esc, 0x5b, 0x63] := by decide
  constructor
  · intro h
    have hnone := h new nestedResponse [] [0x5b, 0x63] hleft
    exact absurd hnone (by decide)
  · intro h
    have hsame := h new new nestedResponse
    rw [hleft] at hsame
    exact absurd hsame (by decide)

end TermFilter

end OpenabPty
