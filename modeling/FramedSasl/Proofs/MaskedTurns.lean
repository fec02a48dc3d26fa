import FramedSasl.Proofs.ChunkedInput
import FramedSasl.Proofs.Masking

/-! Turns of an endpoint on masked payloads. `Veils` relates a stream of frames to the stream of the
masked frames; it has the same length and is cut at the same places. So polls give the masked
performatives, and `input` and `output` do what they do, but for the contents of payloads. -/

namespace FramedSasl

open Call

/-! ### Streams -/

/-- Two streams of the same frames; those of the second are masked. -/
def Veils (bytes bytes' : Bytes) : Prop :=
  ∃ frames : List Frame, (∀ frame ∈ frames, frame.Travels) ∧
    bytes = frames.flatMap Frame.serialize ∧
      bytes' = (frames.map Frame.masked).flatMap Frame.serialize

namespace Veils

theorem nil : Veils [] [] := ⟨[], by simp, rfl, rfl⟩

theorem append {first first' next next' : Bytes} (h : Veils first first') (h' : Veils next next') :
    Veils (first ++ next) (first' ++ next') := by
  obtain ⟨frames, htravels, rfl, rfl⟩ := h
  obtain ⟨later, htravels', rfl, rfl⟩ := h'
  refine ⟨frames ++ later, ?_, by simp, by simp⟩
  intro frame hframe
  rcases List.mem_append.1 hframe with hfirst | hlater
  · exact htravels frame hfirst
  · exact htravels' frame hlater

theorem length_eq {bytes bytes' : Bytes} (h : Veils bytes bytes') :
    bytes'.length = bytes.length := by
  obtain ⟨frames, -, rfl, rfl⟩ := h
  induction frames with
  | nil => rfl
  | cons frame frames ih =>
    have hsize := frame.size_masked
    simp only [Frame.size] at hsize
    simp [ih, hsize]

end Veils

def Arrival.masked (arrival : Arrival) : Arrival :=
  { arrival with frame := arrival.frame.masked }

def Polled.masked (polled : Polled) (buffer : Bytes) : Polled where
  result := polled.result.map (Option.map Performative.masked)
  arrivals := polled.arrivals.map Arrival.masked
  codec := polled.codec.masked buffer

namespace Codec

def Turned.masked (buffer : Bytes) : Turned → Turned
  | .stop polled => .stop (polled.masked buffer)
  | .again arrival c => .again arrival.masked (c.masked buffer)

def Turned.codec : Turned → Codec
  | .stop polled => polled.codec
  | .again _ c => c

/-- `buffer'` and `missing'` are masked where the buffer and the bytes that are missing are not. -/
structure Veiled (c : Codec) (missing buffer' missing' : Bytes) : Prop where
  length : buffer'.length = c.buffer.length
  veils : Veils (c.buffer ++ missing) (buffer' ++ missing')

theorem drop_frame {frame : Frame} {stream missing rest : Bytes}
    (hbytes : stream ++ missing = frame.serialize ++ rest) (hwhole : frame.size ≤ stream.length) :
    stream.drop frame.size ++ missing = rest := by
  have hdrop := congrArg (List.drop frame.size) hbytes
  rwa [List.drop_append_of_le_length hwhole, Frame.size, List.drop_left] at hdrop

/-- A whole frame is taken in alike. -/
theorem turn_masked {c : Codec} {buffer' rest rest' : Bytes} {frame : Frame}
    (hframe : frame.Travels)
    (hcut : cutFrame c.limit c.buffer = .ok (some (frame.serialize, rest)))
    (hcut' : cutFrame c.limit buffer' = .ok (some (frame.masked.serialize, rest'))) :
    (c.masked buffer').turn = c.turn.masked rest' ∧ c.turn.codec.buffer = rest := by
  have hsize : frame.masked.serialize.length = frame.serialize.length := frame.size_masked
  have hmore : frame.masked.more = frame.more := rfl
  have hcut' : cutFrame (c.masked buffer').limit (c.masked buffer').buffer = _ := hcut'
  have hjoin : Performative.joinTo (c.masked buffer').unfinished frame.masked.body = _ :=
    Performative.joinTo_masked c.unfinished frame.body
  simp only [turn, hcut, hcut', parse_own hframe, parse_own hframe.masked, hjoin, hsize, hmore]
  cases Performative.joinTo c.unfinished frame.body with
  | error fault => exact ⟨rfl, rfl⟩
  | ok body => cases frame.more <;> exact ⟨rfl, rfl⟩

/-- Without a whole frame that fits, a poll has the same to say of both. -/
theorem poll_masked_of_unready {c : Codec} {buffer' : Bytes}
    (hsame : cutFrame c.limit buffer' = cutFrame c.limit c.buffer)
    (hnone : ∀ cut, cutFrame c.limit c.buffer ≠ .ok (some cut)) :
    (c.masked buffer').poll = c.poll.masked buffer' ∧ c.poll.codec = c := by
  have hsame : cutFrame (c.masked buffer').limit (c.masked buffer').buffer = _ := hsame
  rw [poll_eq_turn, poll_eq_turn c]
  simp only [turn, hsame]
  rcases hcut : cutFrame c.limit c.buffer with fault | _ | cut
  · exact ⟨rfl, rfl⟩
  · exact ⟨rfl, rfl⟩
  · exact absurd hcut (hnone cut)

theorem poll_masked {c : Codec} {missing buffer' missing' : Bytes}
    (h : c.Veiled missing buffer' missing') :
    ∃ rest', (c.masked buffer').poll = c.poll.masked rest' ∧
      c.poll.codec.Veiled missing rest' missing' := by
  obtain ⟨hlength, frames, htravels, hbytes, hbytes'⟩ := h
  induction frames generalizing c buffer' with
  | nil =>
    obtain ⟨hempty, -⟩ := List.append_eq_nil_iff.1 hbytes
    obtain ⟨hempty', -⟩ := List.append_eq_nil_iff.1 hbytes'
    have hcut : cutFrame c.limit c.buffer = .ok none := by rw [hempty]; rfl
    have hcut' : cutFrame c.limit buffer' = cutFrame c.limit c.buffer := by rw [hempty, hempty']
    obtain ⟨hpoll, hsame⟩ := poll_masked_of_unready hcut' (by simp [hcut])
    rw [hsame]
    exact ⟨buffer', hpoll, hlength, [], htravels, hbytes, hbytes'⟩
  | cons frame frames ih =>
    obtain ⟨hframe, hframes⟩ := List.forall_mem_cons.1 htravels
    rw [List.flatMap_cons] at hbytes
    rw [List.map_cons, List.flatMap_cons] at hbytes'
    have hcut := cutFrame_eq hframe.size_lt hbytes c.limit
    have hcut' := cutFrame_eq hframe.masked.size_lt hbytes' c.limit
    rw [frame.size_masked, hlength] at hcut'
    by_cases hready : 4 ≤ c.buffer.length ∧ frame.size ≤ c.limit ∧ frame.size ≤ c.buffer.length
    · obtain ⟨hpeek, hfits, hwhole⟩ := hready
      rw [if_neg (by omega), if_neg (by omega), if_neg (by omega)] at hcut hcut'
      obtain ⟨hturn, hrest⟩ := turn_masked hframe hcut hcut'
      have hbehind := drop_frame hbytes hwhole
      have hbehind' := drop_frame hbytes' (by rwa [frame.size_masked, hlength])
      rw [frame.size_masked] at hbehind'
      have hlater : (buffer'.drop frame.size).length = c.turn.codec.buffer.length := by
        rw [hrest, List.length_drop, List.length_drop, hlength]
      rw [poll_eq_turn, hturn, poll_eq_turn c]
      cases hturns : c.turn with
      | stop polled =>
        rw [hturns] at hrest hlater
        exact ⟨_, rfl, hlater, frames, hframes, by rw [← hbehind, ← hrest]; rfl, hbehind'⟩
      | again arrival c' =>
        rw [hturns] at hrest hlater
        obtain ⟨rest', hpoll, hveiled⟩ := ih (c := c') hlater hframes
          (by rw [← hbehind, ← hrest]; rfl) hbehind'
        refine ⟨rest', ?_, hveiled⟩
        simp only [Turned.masked, hpoll]
        rfl
    · have hunready : cutFrame c.limit buffer' = cutFrame c.limit c.buffer ∧
          ∀ cut, cutFrame c.limit c.buffer ≠ .ok (some cut) := by
        rw [hcut, hcut']
        by_cases hpeek : c.buffer.length < 4
        · simp [hpeek]
        · by_cases hlarge : c.limit < frame.size
          · simp [hpeek, hlarge]
          · have hpart : c.buffer.length < frame.size := by omega
            simp [hpeek, hlarge, hpart]
      obtain ⟨hpoll, hsame⟩ := poll_masked_of_unready hunready.1 hunready.2
      rw [hsame]
      exact ⟨buffer', hpoll, hlength, frame :: frames, htravels, hbytes, hbytes'⟩

end Codec

namespace Endpoint

variable {e : Endpoint} {missing buffer' missing' : Bytes}

/-! ### In -/

theorem received_masked (arrivals : List Arrival) :
    (arrivals.map Arrival.masked).map received = (arrivals.map received).map Event.masked := by
  simp [Function.comp_def, Arrival.masked, received, Event.masked]

theorem polls_masked (h : e.codec.Veiled missing buffer' missing') :
    ∃ rest', (e.masked buffer').codec.poll = e.codec.poll.masked rest' ∧
      e.codec.poll.codec.Veiled missing rest' missing' :=
  Codec.poll_masked h

theorem accepts_masked {p : Performative} {result : Except Fault Unit} {s : Session}
    (haccept : on e.session (Session.accept p) = (result, s)) :
    on (e.masked buffer').session (Session.accept p.masked) = (result, s.masked) := by
  rw [masked, Session.on_accept_masked, haccept]

/-- What comes in is taken in alike, up to the same fault. -/
theorem absorb_masked (h : e.codec.Veiled missing buffer' missing') :
    ∃ rest', absorb (e.masked buffer') = (absorb e).masked rest' ∧
      (absorb e).endpoint.codec.Veiled missing rest' missing' := by
  induction e using absorb_induction generalizing buffer' with
  | breaks e fault hresult =>
    obtain ⟨rest', hpoll, hveiled⟩ := polls_masked h
    have hresult' : (e.masked buffer').codec.poll.result = .error fault := by
      rw [hpoll, Polled.masked, hresult]
      rfl
    rw [absorb_of_error hresult, absorb_of_error hresult', hpoll]
    refine ⟨rest', ?_, hveiled⟩
    simp only [Turn.masked, Polled.masked, List.length_map, List.map_append, received_masked]
    rfl
  | waits e hresult =>
    obtain ⟨rest', hpoll, hveiled⟩ := polls_masked h
    have hresult' : (e.masked buffer').codec.poll.result = .ok none := by
      rw [hpoll, Polled.masked, hresult]
      rfl
    rw [absorb_of_none hresult, absorb_of_none hresult', hpoll]
    refine ⟨rest', ?_, hveiled⟩
    simp only [Turn.masked, Polled.masked, List.length_map, received_masked]
    rfl
  | refuses e p fault s hresult haccept =>
    obtain ⟨rest', hpoll, hveiled⟩ := polls_masked h
    have hresult' : (e.masked buffer').codec.poll.result = .ok (some p.masked) := by
      rw [hpoll, Polled.masked, hresult]
      rfl
    rw [absorb_of_refused hresult haccept, absorb_of_refused hresult' (accepts_masked haccept),
      hpoll]
    refine ⟨rest', ?_, hveiled⟩
    simp only [Turn.masked, Polled.masked, List.length_map, List.map_append, received_masked]
    rfl
  | takes e p s hresult haccept ih =>
    obtain ⟨rest', hpoll, hveiled⟩ := polls_masked h
    have hresult' : (e.masked buffer').codec.poll.result = .ok (some p.masked) := by
      rw [hpoll, Polled.masked, hresult]
      rfl
    obtain ⟨rest'', hlater, hveiled'⟩ := ih hveiled
    have hlater : absorb { e.masked buffer' with
        session := s.masked, codec := e.codec.poll.codec.masked rest'
        framesReceived := (e.masked buffer').framesReceived + e.codec.poll.arrivals.length } = _ :=
      hlater
    rw [absorb_of_some hresult haccept, absorb_of_some hresult' (accepts_masked haccept), hpoll]
    refine ⟨rest'', ?_, hveiled'⟩
    simp only [Polled.masked, List.length_map, hlater, received_masked]
    simp only [Turn.masked, List.map_append]

/-! ### Out -/

theorem decided_of_due {s s' : Session} {p : Performative}
    (h : on s Session.nextOutbound = (.ok (some p), s')) : p.Decided := by
  have hemitted : ∀ {q after}, on s (Session.emit q after) = (.ok (some p), s') → q = p := by
    intro q after hemit
    rw [Session.on_emit] at hemit
    split at hemit
    · cases hemit
    · cases hemit
      rfl
  simp only [Session.nextOutbound, on_get_bind] at h
  split at h
  · cases h
  · simp only [Session.clientOutbound, on_get_bind] at h
    repeat' split at h
    · cases h
    · exact hemitted h ▸ trivial
    · cases h
    · exact hemitted h ▸ trivial
    · cases h
  · simp only [Session.serverOutbound, on_get_bind] at h
    repeat' split at h
    · cases h
    · cases h
    · exact hemitted h ▸ trivial
    · cases h
    · next hdecided => exact hemitted h ▸ hdecided
    · exact hemitted h ▸ trivial
    · cases h

/-- Both fail alike, or both give the bytes of the same frames behind `opening`. -/
inductive Puts (opening : Bytes) : Except Fault Bytes → Except Fault Bytes → Prop
  | fails (fault : Fault) : Puts opening (.error fault) (.error fault)
  | gives {body body' : Bytes} (h : Veils body body') :
      Puts opening (.ok (opening ++ body)) (.ok (opening ++ body'))

theorem Puts.map_length {opening : Bytes} {result result' : Except Fault Bytes}
    (h : Puts opening result result') : result'.map List.length = result.map List.length := by
  cases h with
  | fails fault => rfl
  | gives h => simp [Except.map, h.length_eq]

theorem Puts.of_error {opening : Bytes} {fault : Fault} {result' : Except Fault Bytes}
    (h : Puts opening (.error fault) result') : result' = .error fault := by
  cases h
  rfl

theorem Puts.of_ok {opening bytes : Bytes} {result' : Except Fault Bytes}
    (h : Puts opening (.ok bytes) result') :
    ∃ body body', bytes = opening ++ body ∧ result' = .ok (opening ++ body') ∧
      Veils body body' := by
  cases h with
  | gives h => exact ⟨_, _, rfl, rfl, h⟩

theorem Puts.behind {front front' : Bytes} {result result' : Except Fault Bytes}
    (h : Puts [] result result') (hfront : Veils front front') :
    Puts [] (result.map (front ++ ·)) (result'.map (front' ++ ·)) := by
  cases h with
  | fails fault => exact .fails fault
  | gives h => exact .gives (hfront.append h)

/-- The turn `turn'` is `turn` on masked payloads, and puts the same frames out. -/
structure Mirrors (opening buffer : Bytes) (turn turn' : Turn Bytes) : Prop where
  result : Puts opening turn.result turn'.result
  endpoint : turn'.endpoint = turn.endpoint.masked buffer
  events : turn'.events = turn.events.map Event.masked

/-- The frames of a performative can travel. -/
theorem veils_fragments {p : Performative} {limit : Nat} {frames : List Frame}
    (hframes : p.fragments limit = .ok frames) (hdecided : p.Decided) (hword : limit < wordCount) :
    Veils (frames.flatMap Frame.serialize) ((frames.map Frame.masked).flatMap Frame.serialize) := by
  refine ⟨frames, fun frame hframe => ?_, rfl, rfl⟩
  obtain ⟨hbody, hwhole, hsize⟩ := p.fragments_fit hframes hdecided frame hframe
  exact ⟨hbody, hwhole, Nat.lt_of_le_of_lt hsize hword⟩

theorem sent_masked (frames : List Frame) :
    (frames.map Frame.masked).map sent = (frames.map sent).map Event.masked := by
  simp [Function.comp_def, sent, Event.masked]

theorem drain_error {s : Session} {fault : Fault}
    (h : on e.session Session.nextOutbound = (.error fault, s)) :
    drain e = fail { e with session := s } fault := by
  rw [drain]
  split
  · next hdue =>
    cases hdue.symm.trans h
    rfl
  · next hdue => cases hdue.symm.trans h
  · next hdue => cases hdue.symm.trans h

theorem due_masked {result : Except Fault (Option Performative)} {s : Session}
    (h : on e.session Session.nextOutbound = (result, s)) (buffer : Bytes) :
    on (e.masked buffer).session Session.nextOutbound =
      (result.map (Option.map Performative.masked), s.masked) := by
  rw [masked, Session.nextOutbound_masked, h]

theorem fragments_masked {p : Performative} {limit : Nat} {result : Except Fault (List Frame)}
    (h : p.fragments limit = result) :
    p.masked.fragments limit = result.map (List.map Frame.masked) := by
  rw [Performative.fragments_masked, h]

theorem drain_masked (e : Endpoint) (hword : e.codec.peerLimit < wordCount) (buffer : Bytes) :
    Mirrors [] buffer (drain e) (drain (e.masked buffer)) := by
  fun_induction drain e with
  | case1 e fault s hdue =>
    rw [drain_error (due_masked hdue buffer)]
    exact ⟨.fails fault, rfl, rfl⟩
  | case2 e s hdue =>
    rw [drain_rests (due_masked hdue buffer)]
    exact ⟨.gives .nil, rfl, rfl⟩
  | case3 e s p hdue fault codec hencode =>
    rw [Codec.on_encode] at hencode
    obtain ⟨hframes, rfl⟩ := Prod.mk.inj hencode
    rw [drain_refused (due_masked hdue buffer) (fragments_masked hframes)]
    exact ⟨.fails fault, rfl, rfl⟩
  | case4 e s p hdue frames codec hencode later ih =>
    rw [Codec.on_encode] at hencode
    obtain ⟨hframes, rfl⟩ := Prod.mk.inj hencode
    obtain ⟨hputs, hendpoint, hevents⟩ := ih hword
    rw [drain_emits (due_masked hdue buffer) (fragments_masked hframes)]
    have hveils := veils_fragments hframes (decided_of_due hdue) hword
    simp only [List.length_map, sent_masked]
    refine ⟨hputs.behind hveils, hendpoint, ?_⟩
    rw [List.map_append]
    exact congrArg _ hevents

theorem output_masked {side : Role} (hrole : e.session.role = some side)
    (hword : e.codec.peerLimit < wordCount) (buffer : Bytes) :
    Mirrors e.opening buffer e.output (e.masked buffer).output := by
  rcases hfailure : e.failure with _ | fault
  · have hdrain : Mirrors [] buffer (drain { e with headerSent := true })
        (drain { e.masked buffer with headerSent := true }) :=
      drain_masked { e with headerSent := true } hword buffer
    rw [output, guarded_eq hfailure hrole, output, guarded_eq (e := e.masked buffer) hfailure hrole]
    generalize drain { e with headerSent := true } = drained at hdrain ⊢
    generalize drain { e.masked buffer with headerSent := true } = drained' at hdrain ⊢
    obtain ⟨result, e', events⟩ := drained
    obtain ⟨result', e'', events'⟩ := drained'
    obtain ⟨hputs, hendpoint, hevents⟩ := hdrain
    dsimp only at hputs hendpoint hevents
    subst hendpoint hevents
    cases hputs with
    | fails fault => exact ⟨.fails fault, rfl, rfl⟩
    | @gives body body' h =>
      have hopening : (if (e.masked buffer).headerSent then [] else protocolHeader) =
          e.opening := rfl
      have hopening' : (if e.headerSent then [] else protocolHeader) = e.opening := rfl
      simp only [hopening, hopening', List.nil_append]
      rw [conclude_masked e' buffer (e.opening ++ body)]
      refine ⟨?_, rfl, rfl⟩
      rw [conclude_result]
      exact .gives h
  · have hfailure' : (e.masked buffer).failure = some fault := hfailure
    rw [output_of_failure hfailure, output_of_failure hfailure']
    exact ⟨.fails fault, rfl, rfl⟩

theorem input_masked {side : Role} {data data' rest rest' : Bytes} {matched : Nat}
    (hrole : e.session.role = some side) (hfailure : e.failure = none)
    (hheader : matchHeader e.headerMatched data = (matched, .ok rest))
    (hheader' : matchHeader e.headerMatched data' = (matched, .ok rest'))
    (h : (e.codec.feed rest).Veiled missing (buffer' ++ rest') missing') :
    ∃ left, (e.masked buffer').input data' = (e.input data).masked left ∧
      (e.input data).endpoint.codec.Veiled missing left missing' ∧
        (e.input data).endpoint.headerMatched = matched ∧
          (e.input data).endpoint.headerSent = e.headerSent := by
  let fed : Endpoint := { e with headerMatched := matched, codec := e.codec.feed rest }
  obtain ⟨left, habsorb, hveiled⟩ := absorb_masked (e := fed) h
  have hmatched := absorb_headerMatched fed
  have hsent := (absorb_credit fed).1
  have hintake : e.intake data = absorb fed := by
    rw [intake, hheader]
  have hmasked : matchHeader (e.masked buffer').headerMatched data' = (matched, .ok rest') :=
    hheader'
  have hintake' : (e.masked buffer').intake data' = (absorb fed).masked left := by
    rw [intake, hmasked]
    exact habsorb
  rw [input_eq_intake hfailure hrole, input_eq_intake (e := e.masked buffer') hfailure hrole,
    hintake, hintake']
  generalize absorb fed = absorbed at hmatched hsent hveiled ⊢
  obtain ⟨result, e', events⟩ := absorbed
  cases result with
  | error fault => exact ⟨left, rfl, hveiled, hmatched, hsent⟩
  | ok count =>
    obtain ⟨reported, hconclude⟩ := conclude_endpoint e' count events
    simp only [Turn.masked]
    rw [conclude_masked e' left count, hconclude, conclude_result]
    exact ⟨left, rfl, hveiled, hmatched, hsent⟩

end Endpoint

end FramedSasl
