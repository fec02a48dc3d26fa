import FramedSasl.Proofs.StreamReading
import FramedSasl.Proofs.StreamRoundTrip

/-! Where a payload was cut has no meaning. A peer may cut it as it likes, in slices of any size
that may be empty or, where a payload may be, absent: with the last fragment the codec gives the
performative and is as if it had come whole. A frame of anything else among the fragments is refused
instead. -/

namespace FramedSasl

namespace Performative

variable {p next : Performative}

/-- A frame of another kind, or with other fields beside the payload, is no fragment of `p`. -/
theorem clash?_of_other (h : p.kind ≠ .mechanisms) (hother : p.withPayload? next.payload? ≠ next) :
    ∃ fault, p.clash? next = some fault ∧ fault.kind = .malformedFrame := by
  cases p with
  | mechanisms names => exact absurd rfl h
  | init mechanism data hostname =>
    cases next with
    | init mechanism' data' hostname' =>
      have hfields : ¬(mechanism' = mechanism ∧ hostname' = hostname) := by
        rintro ⟨rfl, rfl⟩
        exact hother rfl
      exact ⟨_, if_neg hfields, rfl⟩
    | mechanisms | challenge | response | outcome => exact ⟨_, rfl, rfl⟩
  | challenge payload =>
    cases next with
    | challenge payload' => exact absurd rfl hother
    | mechanisms | init | response | outcome => exact ⟨_, rfl, rfl⟩
  | response payload =>
    cases next with
    | response payload' => exact absurd rfl hother
    | mechanisms | init | challenge | outcome => exact ⟨_, rfl, rfl⟩
  | outcome code data =>
    cases next with
    | outcome code' data' =>
      have hcode : code' ≠ code := by
        rintro rfl
        exact hother rfl
      exact ⟨_, if_neg hcode, rfl⟩
    | mechanisms | init | challenge | response => exact ⟨_, rfl, rfl⟩

theorem joinTo_clash {fault : Fault} (hclash : p.clash? next = some fault)
    {before : List (Option Bytes)} (hne : before ≠ []) :
    joinTo (p.opened before) next = .error fault := by
  rw [opened_of_ne_nil p hne]
  change (p.withPayload? _).join next = _
  rw [join_eq, clash?_withPayload?, hclash]

end Performative

open Performative

namespace Codec

variable {c : Codec} {p : Performative}

/-- A frame that clashes with the slices before it ends the polls, and nothing has come. -/
theorem pollAll_clashes (hkind : p.kind ≠ .mechanisms) {next : Frame} {fault : Fault}
    (hclash : p.clash? next.body = some fault) (before : List (Option Bytes))
    {front : List (Option Bytes)} (hne : before ++ front ≠ [])
    (hopened : c.unfinished = p.opened before)
    {wires : List Bytes} {wire rest missing : Bytes}
    (hfront : List.Forall₂ (Admits c.limit) wires
      (front.map fun slice => ⟨p.withPayload? slice, true⟩))
    (hnext : Admits c.limit wire next)
    (hbytes : c.buffer ++ missing = wires.flatten ++ (wire ++ rest)) :
    c.pollAll.performatives = [] ∧
      ((wires.flatten ++ wire).length ≤ c.buffer.length → c.pollAll.fault = some fault) := by
  -- `before` are the slices that have been taken off the front
  induction front generalizing c before wires with
  | nil =>
    cases hfront
    rw [List.append_nil] at hne
    rw [List.flatten_nil, List.nil_append] at hbytes ⊢
    by_cases hshort : c.buffer.length < wire.length
    · rw [pollAll_of_cut_none (hnext.cut_short hbytes hshort)]
      exact ⟨rfl, fun hwhole => absurd hshort (Nat.not_lt.2 hwhole)⟩
    · obtain ⟨behind, hbuffer, -⟩ := exists_rest hbytes (Nat.not_lt.1 hshort)
      have hcut := hnext.cut behind
      rw [← hbuffer] at hcut
      rw [pollAll_of_join_error hcut hnext.parses (hopened ▸ joinTo_clash hclash hne)]
      exact ⟨rfl, fun _ => rfl⟩
  | cons slice front ih =>
    obtain ⟨first, wires, hfirst, hwires, rfl⟩ := List.forall₂_cons_right_iff.1 hfront
    rw [List.flatten_cons, List.append_assoc] at hbytes
    rw [List.flatten_cons, List.append_assoc]
    by_cases hshort : c.buffer.length < first.length
    · rw [pollAll_of_cut_none (hfirst.cut_short hbytes hshort)]
      refine ⟨rfl, fun hwhole => ?_⟩
      rw [List.length_append] at hwhole
      omega
    · obtain ⟨behind, hbuffer, hbehind⟩ := exists_rest hbytes (Nat.not_lt.1 hshort)
      have hcut := hfirst.cut behind
      rw [← hbuffer] at hcut
      have hlater : before ++ [slice] ≠ [] :=
        List.append_ne_nil_of_right_ne_nil _ (List.cons_ne_nil _ _)
      rw [pollAll_of_more hcut hfirst.parses (hopened ▸ joinTo_opened hkind before slice) rfl]
      obtain ⟨hnothing, hfault⟩ := ih (c := { c with
        buffer := behind, started := true
        unfinished := some (p.withPayload? (gathered (before ++ [slice]))) })
        (before ++ [slice]) (List.append_ne_nil_of_left_ne_nil hlater _)
        (opened_of_ne_nil p hlater).symm hwires hnext hbehind
      have hlength : c.buffer.length = first.length + behind.length := by
        rw [hbuffer, List.length_append]
      refine ⟨hnothing, fun hwhole => hfault ?_⟩
      rw [hlength, List.length_append] at hwhole
      exact Nat.le_of_add_le_add_left hwhole

/-- A codec between performatives, and one of them that carries a payload. However its payload is
cut, and however the bytes of the frames come in: nothing comes before the last of them, and then
the performative, with a payload if one of the slices is there; the codec is as before but that
frames have passed, so nothing tells two ways to cut apart. A frame behind some fragments that is of
another kind or has other fields beside the payload is refused, whatever follows, and nothing comes
at all: a codec is not polled any more behind a fault. -/
theorem pollChunks_slices (hidle : c.buffer = [] ∧ c.unfinished = none)
    (hkind : p.kind ≠ .mechanisms) :
    (∀ (slices : List (Option Bytes)) (wires chunks : List Bytes) (missing : Bytes),
      slices ≠ [] → gathered slices = p.payload? →
      List.Forall₂ (Admits c.limit) wires
        (Frame.sequence (slices.map fun slice => p.withPayload? slice)) →
      chunks.flatten ++ missing = wires.flatten →
        let harvest := c.pollChunks chunks
        harvest.fault = none ∧ (missing ≠ [] → harvest.performatives = []) ∧
          (missing = [] →
            harvest.performatives = [p] ∧ harvest.codec = { c with started := true })) ∧
    ∀ (front : List (Option Bytes)) (wires chunks : List Bytes) (wire rest missing : Bytes)
      (next : Frame), front ≠ [] →
      List.Forall₂ (Admits c.limit) wires (front.map fun slice => ⟨p.withPayload? slice, true⟩) →
      Admits c.limit wire next → p.withPayload? next.body.payload? ≠ next.body →
      chunks.flatten ++ missing = wires.flatten ++ (wire ++ rest) →
        let harvest := c.pollChunks chunks
        harvest.performatives = [] ∧
          ((wires.flatten ++ wire).length ≤ chunks.flatten.length →
            ∃ fault, harvest.fault = some fault ∧ fault.kind = .malformedFrame) := by
  have hrests : c.pollAll = ⟨[], [], none, c⟩ :=
    pollAll_of_cut_none (by rw [hidle.1]; rfl)
  have hbuffer (chunks : List Bytes) : (c.feed chunks.flatten).buffer = chunks.flatten := by
    rw [feed, hidle.1, List.nil_append]
  refine ⟨?_, ?_⟩
  · intro slices wires chunks missing hne hpayload hadmits hbytes harvest
    obtain ⟨⟨hperformatives, -, hfault⟩, hcodec⟩ := pollChunks_eq hrests chunks
    have hawaits : (c.feed chunks.flatten).Awaits p missing := by
      refine ⟨wires, _, ?_, hadmits, by rw [hbuffer, hbytes]⟩
      have hcompletes := completes_slices hkind hne []
      rw [List.nil_append, hpayload, withPayload?_payload?] at hcompletes
      exact hidle.2 ▸ hcompletes
    by_cases hmissing : missing = []
    · subst hmissing
      obtain ⟨arrivals, hall⟩ := hawaits.pollAll_feed []
      have hdone : Codec.pollAll { c.feed chunks.flatten with
          buffer := [], started := true, unfinished := none } =
          ⟨[], [], none, { c with started := true }⟩ := by
        rw [pollAll_of_cut_none rfl, ← hidle.1, ← hidle.2]
        rfl
      have hfed : (c.feed chunks.flatten).feed [] = c.feed chunks.flatten := by
        rw [feed, List.append_nil]
      rw [hfed, hdone] at hall
      rw [hall] at hperformatives hfault hcodec
      exact ⟨hfault, fun hsome => absurd rfl hsome, fun _ => ⟨hperformatives, hcodec rfl⟩⟩
    · obtain ⟨hnothing, hnone, -⟩ := hawaits.pollAll hmissing
      exact ⟨hfault.trans hnone, fun _ => hperformatives.trans hnothing,
        fun hnil => absurd hnil hmissing⟩
  · intro front wires chunks wire rest missing next hne hfront hnext hother hbytes harvest
    obtain ⟨⟨hperformatives, -, hfault⟩, -⟩ := pollChunks_eq hrests chunks
    obtain ⟨fault, hclash, hmalformed⟩ := clash?_of_other hkind hother
    rw [← hbuffer chunks] at hbytes
    obtain ⟨hnothing, hrefused⟩ := pollAll_clashes (c := c.feed chunks.flatten) hkind hclash []
      hne hidle.2 hfront hnext hbytes
    rw [hbuffer] at hrefused
    exact ⟨hperformatives.trans hnothing,
      fun hwhole => ⟨fault, hfault.trans (hrefused hwhole), hmalformed⟩⟩

/-- An outcome with its data in three slices, one of them absent, cut within the second frame; and
one whose second fragment has another code. -/
theorem pollChunks_slices_outcome :
    let p : Performative := .outcome .auth (some [1, 2])
    let frames : List Frame := [⟨.outcome .auth (some [1]), true⟩, ⟨.outcome .auth none, true⟩,
      ⟨.outcome .auth (some [2]), false⟩]
    let bytes := (frames.map Frame.serialize).flatten
    let first := (Frame.mk (.outcome .auth (some [1])) true).serialize
    let other := (Frame.mk (.outcome .ok none) false).serialize
    ((Codec.pollChunks {} [bytes.take 30, bytes.drop 30]).performatives = [p] ∧
      (Codec.pollChunks {} [bytes.take 30]).performatives = []) ∧
      ∃ fault, (Codec.pollChunks {} [first ++ other]).fault = some fault ∧
        fault.kind = .malformedFrame := by
  intro p frames bytes first other
  obtain ⟨hjoins, hrefuses⟩ := @pollChunks_slices {} p ⟨rfl, rfl⟩ (by decide)
  have hadmits {code : Outcome} {data : Option Bytes} {more : Bool} (hcode : code ≠ .undecided)
      (hsize : (Frame.mk (.outcome code data) more).size ≤ minimumLimit) :
      Admits minimumLimit (Frame.mk (.outcome code data) more).serialize
        ⟨.outcome code data, more⟩ :=
    Fits.admits ⟨⟨hcode, fun _ => nofun, Nat.lt_of_le_of_lt hsize (by decide)⟩, hsize⟩
  have hfirst : Admits minimumLimit first ⟨.outcome .auth (some [1]), true⟩ :=
    hadmits nofun (by decide)
  have hframes : List.Forall₂ (Admits minimumLimit) (frames.map Frame.serialize) frames :=
    .cons hfirst (.cons (hadmits nofun (by decide)) (.cons (hadmits nofun (by decide)) .nil))
  have hslices := hjoins [some [1], none, some [2]] (frames.map Frame.serialize)
  have hall := hslices [bytes.take 30, bytes.drop 30] [] (by decide) rfl hframes (by
    rw [List.append_nil, List.flatten_cons, List.flatten_singleton, List.take_append_drop])
  have hpart := hslices [bytes.take 30] (bytes.drop 30) (by decide) rfl hframes (by
    rw [List.flatten_singleton, List.take_append_drop])
  have hother := hrefuses [some [1]] [first] [first ++ other] other [] [] ⟨.outcome .ok none, false⟩
    (by decide) (.cons hfirst .nil) (hadmits nofun (by decide)) (by decide) (by simp)
  exact ⟨⟨(hall.2.2 rfl).1, hpart.2.1 (by decide)⟩, hother.2 (by simp)⟩

end Codec

end FramedSasl
