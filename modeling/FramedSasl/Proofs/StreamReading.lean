import FramedSasl.Proofs.Polling

/-! What a whole stream says, without a codec. The stream is cut into frames by their sizes, each
frame is parsed by itself, frames are grouped up to the first without `more`, and a group is its
first frame with the payloads of all. Polls give the same, however the stream comes in. -/

namespace FramedSasl

/-! ### Groups of fragments -/

namespace Performative

/-- Why `next` is no fragment of the same performative as `first`. -/
def clash? : Performative → Performative → Option Fault
  | mechanisms _, mechanisms _ => some (.codec .mechanismsFragments)
  | init mechanism _ hostname, init mechanism' _ hostname' =>
    if mechanism' = mechanism ∧ hostname' = hostname then none
    else some (.codec (.initFragments mechanism mechanism'))
  | outcome code _, outcome code' _ =>
    if code' = code then none else some (.codec (.outcomeFragments code code'))
  | first, next =>
    if next.kind = first.kind then none else some (.codec (.fragmentKind first.kind next.kind))

/-- What the fragments of a group amount to. -/
def merged (first : Performative) (rest : List Performative) : Performative :=
  first.withPayload? (gathered ((first :: rest).map payload?))

theorem join_eq (first next : Performative) :
    first.join next = match first.clash? next with
      | some fault => .error fault
      | none => .ok (first.withPayload? (joinPayloads first.payload? next.payload?)) := by
  cases first <;> cases next
  case init.init mechanism data hostname mechanism' data' hostname' =>
    by_cases h : mechanism' = mechanism ∧ hostname' = hostname
    · simp [join, clash?, h, withPayload?, payload?]
    · have h' : mechanism' ≠ mechanism ∨ hostname' ≠ hostname := by
        by_cases hmechanism : mechanism' = mechanism
        · exact .inr fun hhostname => h ⟨hmechanism, hhostname⟩
        · exact .inl hmechanism
      simp only [join, clash?, if_neg h, if_pos h']
  case outcome.outcome code data code' data' =>
    by_cases h : code' = code
    · simp [join, clash?, h, withPayload?, payload?]
    · simp only [join, clash?, ne_eq, h, not_false_eq_true, if_true, if_false]
  all_goals rfl

theorem clash?_withPayload? (first next : Performative) (data : Option Bytes) :
    (first.withPayload? data).clash? next = first.clash? next := by
  cases first <;> cases next <;> rfl

theorem join_merged (first next : Performative) (rest : List Performative) :
    (merged first rest).join next = match first.clash? next with
      | some fault => .error fault
      | none => .ok (merged first (rest ++ [next])) := by
  have hgathered : gathered ((first :: (rest ++ [next])).map payload?) =
      joinPayloads (gathered ((first :: rest).map payload?)) next.payload? := by
    rw [← List.cons_append, List.map_append]
    exact gathered_concat _ _
  rw [join_eq, merged, clash?_withPayload?, merged, hgathered]
  cases hclash : first.clash? next with
  | some fault => rfl
  | none => cases first <;> cases next <;> rfl

theorem merged_nil (p : Performative) : merged p [] = p := by
  rw [merged, List.map_singleton, gathered_singleton, withPayload?_payload?]

end Performative

/-- Frames up to the first without `more`. The last group of a stream may lack that frame. -/
structure Group where
  first : Arrival
  rest : List Arrival

namespace Group

def frames (g : Group) : List Arrival := g.first :: g.rest

def isOpen (g : Group) : Bool := g.frames.all fun arrival => arrival.frame.more

def body (g : Group) : Performative :=
  g.first.frame.body.merged (g.rest.map fun arrival => arrival.frame.body)

end Group

def groups : List Arrival → List Group
  | [] => []
  | arrival :: later =>
    if arrival.frame.more then
      match groups later with
      | [] => [⟨arrival, []⟩]
      | g :: gs => ⟨arrival, g.frames⟩ :: gs
    else ⟨arrival, []⟩ :: groups later

/-- The frames that can go on with `first`, up to one that cannot and with its fault. -/
def checked (first : Performative) : List Arrival → List Arrival × Option Fault
  | [] => ([], none)
  | arrival :: later =>
    match first.clash? arrival.frame.body with
    | some fault => ([arrival], some fault)
    | none => (arrival :: (checked first later).1, (checked first later).2)

/-! ### Readings -/

structure Reading where
  performatives : List Performative
  arrivals : List Arrival
  fault : Option Fault
  /-- The last group has not come to its end. -/
  isOpen : Bool

def readGroups : List Group → Reading
  | [] => ⟨[], [], none, false⟩
  | g :: gs =>
    match checked g.first.frame.body g.rest with
    | (seen, some fault) => ⟨[], g.first :: seen, some fault, true⟩
    | (_, none) =>
      if g.isOpen then ⟨[], g.frames, none, true⟩
      else
        let later := readGroups gs
        { later with
          performatives := g.body :: later.performatives, arrivals := g.frames ++ later.arrivals }

structure Cut where
  /-- The bytes of each frame. -/
  frames : List Bytes
  /-- The bytes behind the last frame. -/
  tail : Bytes
  /-- What is wrong with the size in front of them. -/
  fault : Option Fault

def cutFrames (limit : Nat) (stream : Bytes) : Cut :=
  match Frame.peekSize stream with
  | none => ⟨[], stream, none⟩
  | some size =>
    if size < Frame.headerSize then ⟨[], stream, some (.frame (.sizeBelowHeader size))⟩
    else if limit < size then ⟨[], stream, some (.codec (.inboundTooLarge size limit))⟩
    else if stream.length < size then ⟨[], stream, none⟩
    else
      let later := cutFrames limit (stream.drop size)
      { later with frames := stream.take size :: later.frames }
termination_by stream.length
decreasing_by simp only [List.length_drop, Frame.headerSize] at *; omega

/-- The frames up to the first that is none, and what is wrong with that. -/
def parseFrames : List Bytes → List Arrival × Option Fault
  | [] => ([], none)
  | bytes :: later =>
    match Frame.parse bytes with
    | .error fault => ([], some fault)
    | .ok frame => (⟨frame, bytes.length⟩ :: (parseFrames later).1, (parseFrames later).2)

structure StreamReading extends Reading where
  /-- The bytes of a frame that is not complete. -/
  tail : Bytes

/-- What a whole stream says, up to its first fault. -/
def readStream (limit : Nat) (stream : Bytes) : StreamReading :=
  let cut := cutFrames limit stream
  let (arrivals, refused) := parseFrames cut.frames
  let reading := readGroups (groups arrivals)
  { reading with fault := reading.fault.or (refused.or cut.fault), tail := cut.tail }

/-! ### Frames with a group so far -/

/-- Frames behind a group so far, joined one after the other. -/
def joinFrames (unfinished : Option Performative) : List Arrival → Reading
  | [] => ⟨[], [], none, unfinished.isSome⟩
  | arrival :: later =>
    match Performative.joinTo unfinished arrival.frame.body with
    | .error fault => ⟨[], [arrival], some fault, true⟩
    | .ok body =>
      if arrival.frame.more then
        let reading := joinFrames (some body) later
        { reading with arrivals := arrival :: reading.arrivals }
      else
        let reading := joinFrames none later
        { reading with
          performatives := body :: reading.performatives, arrivals := arrival :: reading.arrivals }

namespace Group

variable {first : Arrival} {rest : List Arrival}

theorem groups_open (hfirst : first.frame.more = true)
    (hrest : ∀ arrival ∈ rest, arrival.frame.more = true) :
    groups (first :: rest) = [⟨first, rest⟩] := by
  induction rest generalizing first with
  | nil => simp only [groups, hfirst, if_true]
  | cons next rest ih =>
    obtain ⟨hnext, hrest⟩ := List.forall_mem_cons.1 hrest
    rw [groups, if_pos hfirst, ih hnext hrest]
    rfl

theorem groups_closed {last : Arrival} (hfirst : first.frame.more = true)
    (hrest : ∀ arrival ∈ rest, arrival.frame.more = true) (hlast : last.frame.more = false)
    (later : List Arrival) :
    groups (first :: rest ++ last :: later) = ⟨first, rest ++ [last]⟩ :: groups later := by
  induction rest generalizing first with
  | nil => simp only [List.cons_append, List.nil_append, groups, hfirst, hlast, if_true, frames,
      Bool.false_eq_true, if_false]
  | cons next rest ih =>
    obtain ⟨hnext, hrest⟩ := List.forall_mem_cons.1 hrest
    rw [List.cons_append, groups, if_pos hfirst, ih hnext hrest]
    rfl

/-- The group of frames that go on holds the frame behind them, too. -/
theorem groups_extend (hfirst : first.frame.more = true)
    (hrest : ∀ arrival ∈ rest, arrival.frame.more = true) (next : Arrival) (later : List Arrival) :
    ∃ others gs,
      groups (first :: rest ++ next :: later) = ⟨first, rest ++ next :: others⟩ :: gs := by
  induction rest generalizing first with
  | nil =>
    rw [List.cons_append, List.nil_append, groups, if_pos hfirst, groups]
    cases next.frame.more with
    | false => exact ⟨[], groups later, rfl⟩
    | true =>
      cases groups later with
      | nil => exact ⟨[], [], rfl⟩
      | cons g gs => exact ⟨g.frames, gs, rfl⟩
  | cons following rest ih =>
    obtain ⟨hnext, hrest⟩ := List.forall_mem_cons.1 hrest
    obtain ⟨others, gs, heq⟩ := ih hnext hrest
    rw [List.cons_append, groups, if_pos hfirst, heq]
    exact ⟨others, gs, rfl⟩

end Group

/-- The frames of a group so far: none of them ends it and none clashes with the first. -/
structure OpenGroup (first : Arrival) (rest : List Arrival) : Prop where
  first_more : first.frame.more = true
  rest_more : ∀ arrival ∈ rest, arrival.frame.more = true
  agree : checked first.frame.body rest = (rest, none)

theorem checked_append {first : Performative} {rest : List Arrival}
    (h : checked first rest = (rest, none)) (later : List Arrival) :
    checked first (rest ++ later) = (rest ++ (checked first later).1, (checked first later).2) := by
  induction rest with
  | nil => rfl
  | cons arrival rest ih =>
    rw [checked] at h
    rw [List.cons_append, checked]
    split at h
    · cases h
    · next hclash =>
      simp only [Prod.mk.injEq, List.cons.injEq, true_and] at h
      rw [ih (Prod.ext h.1 h.2)]
      rfl

theorem OpenGroup.concat {first next : Arrival} {rest : List Arrival} (h : OpenGroup first rest)
    (hclash : first.frame.body.clash? next.frame.body = none) (hmore : next.frame.more = true) :
    OpenGroup first (rest ++ [next]) where
  first_more := h.first_more
  rest_more := List.forall_mem_append.2 ⟨h.rest_more, by simpa using hmore⟩
  agree := by
    rw [checked_append h.agree]
    simp only [checked, hclash]

/-- Joining frames one by one gives what their groups give, also in the middle of a group. -/
theorem readGroups_groups (arrivals : List Arrival) :
    readGroups (groups arrivals) = joinFrames none arrivals ∧
      ∀ first rest, OpenGroup first rest →
        readGroups (groups (first :: rest ++ arrivals)) =
          let later := joinFrames (some (Group.mk first rest).body) arrivals
          { later with arrivals := first :: rest ++ later.arrivals } := by
  -- both at once: a frame with `more` leads from the first statement to the second
  induction arrivals with
  | nil =>
    refine ⟨rfl, ?_⟩
    intro first rest h
    have hopen : (Group.mk first rest).isOpen = true := by
      rw [Group.isOpen, Group.frames, List.all_eq_true]
      exact List.forall_mem_cons.2 ⟨h.first_more, h.rest_more⟩
    rw [List.append_nil, Group.groups_open h.first_more h.rest_more, readGroups]
    simp only [h.agree, hopen, if_true, joinFrames, List.append_nil, Group.frames]
    rfl
  | cons arrival later ih =>
    obtain ⟨ihnone, ihopen⟩ := ih
    constructor
    · cases hmore : arrival.frame.more with
      | true =>
        have := ihopen arrival [] ⟨hmore, by simp, rfl⟩
        rw [List.cons_append, List.nil_append] at this
        rw [this, joinFrames]
        simp only [Performative.joinTo, hmore, if_true, Group.body, List.map_nil,
          Performative.merged_nil]
        rfl
      | false =>
        rw [groups, if_neg (by simp [hmore]), readGroups, ihnone, joinFrames]
        simp only [checked, Group.isOpen, Group.frames, List.all_cons, hmore, Bool.false_and,
          Performative.joinTo, Group.body, List.map_nil, Performative.merged_nil,
          Bool.false_eq_true, if_false]
        rfl
    · intro first rest h
      have hjoin := first.frame.body.join_merged arrival.frame.body
        (rest.map fun arrival => arrival.frame.body)
      rw [joinFrames]
      simp only [Performative.joinTo, Group.body, hjoin]
      cases hclash : first.frame.body.clash? arrival.frame.body with
      | some fault =>
        obtain ⟨others, gs, hgroups⟩ :=
          Group.groups_extend h.first_more h.rest_more arrival later
        rw [hgroups, readGroups]
        simp only [checked_append h.agree, checked, hclash, List.cons_append]
      | none =>
        have hbody : Performative.merged first.frame.body
            ((rest.map fun arrival => arrival.frame.body) ++ [arrival.frame.body]) =
              (Group.mk first (rest ++ [arrival])).body := by
          rw [Group.body, List.map_append]
          rfl
        cases hmore : arrival.frame.more with
        | true =>
          have hall := ihopen first (rest ++ [arrival]) (h.concat hclash hmore)
          rw [← List.cons_append, List.append_assoc, List.singleton_append] at hall
          rw [hall, hbody]
          simp only [if_true, List.append_assoc, List.singleton_append]
        | false =>
          have hchecked : checked first.frame.body (rest ++ [arrival]) =
              (rest ++ [arrival], none) := by
            rw [checked_append h.agree]
            simp only [checked, hclash]
          have hclosed : (Group.mk first (rest ++ [arrival])).isOpen = false := by
            simp [Group.isOpen, Group.frames, hmore]
          rw [Group.groups_closed h.first_more h.rest_more hmore, readGroups, ihnone, hbody]
          simp only [hchecked, hclosed, Bool.false_eq_true, if_false, Group.frames,
            List.cons_append, List.append_assoc]
          rfl

/-! ### Polls read the stream -/

theorem cutFrames_eq (limit : Nat) (stream : Bytes) :
    cutFrames limit stream = match Codec.cutFrame limit stream with
      | .error fault => ⟨[], stream, some fault⟩
      | .ok none => ⟨[], stream, none⟩
      | .ok (some (bytes, rest)) =>
        { cutFrames limit rest with frames := bytes :: (cutFrames limit rest).frames } := by
  rw [cutFrames, Codec.cutFrame]
  cases Frame.peekSize stream with
  | none => rfl
  | some size =>
    dsimp only
    by_cases hlow : size < Frame.headerSize
    · rw [if_pos hlow, if_pos hlow]
    · rw [if_neg hlow, if_neg hlow]
      by_cases hhigh : limit < size
      · rw [if_pos hhigh, if_pos hhigh]
      · rw [if_neg hhigh, if_neg hhigh]
        by_cases hshort : stream.length < size
        · rw [if_pos hshort, if_pos hshort]
        · rw [if_neg hshort, if_neg hshort]

/-- A codec's reading of its buffer, behind what it has of a group. -/
def Codec.reading (c : Codec) : StreamReading :=
  let cut := cutFrames c.limit c.buffer
  let (arrivals, refused) := parseFrames cut.frames
  let reading := joinFrames c.unfinished arrivals
  { reading with fault := reading.fault.or (refused.or cut.fault), tail := cut.tail }

/-- The harvest of a codec is what a reading says, and the codec is left as it says. -/
structure Harvest.Reads (h : Harvest) (r : StreamReading) : Prop where
  performatives : h.performatives = r.performatives
  arrivals : h.arrivals = r.arrivals
  fault : h.fault = r.fault
  buffer : h.fault = none → h.codec.buffer = r.tail
  unfinished : h.fault = none → h.codec.unfinished.isSome = r.isOpen

theorem Codec.pollAll_reads (c : Codec) : c.pollAll.Reads c.reading := by
  unfold reading
  induction c using frame_induction with
  | cut_error c cause hcut =>
    rw [pollAll_of_cut_error hcut, cutFrames_eq, hcut]
    exact ⟨rfl, rfl, rfl, nofun, nofun⟩
  | cut_none c hcut =>
    rw [pollAll_of_cut_none hcut, cutFrames_eq, hcut]
    exact ⟨rfl, rfl, rfl, fun _ => rfl, fun _ => rfl⟩
  | parse_error c bytes rest cause hcut hparse =>
    rw [pollAll_of_parse_error hcut hparse, cutFrames_eq, hcut]
    simp only [parseFrames, hparse]
    exact ⟨rfl, rfl, rfl, nofun, nofun⟩
  | join_error c bytes rest frame cause hcut hparse hjoin =>
    rw [pollAll_of_join_error hcut hparse hjoin, cutFrames_eq, hcut]
    simp only [parseFrames, hparse, joinFrames, hjoin]
    exact ⟨rfl, rfl, rfl, nofun, nofun⟩
  | more c bytes rest frame body hcut hparse hjoin hmore ih =>
    rw [pollAll_of_more hcut hparse hjoin hmore, cutFrames_eq, hcut]
    simp only [parseFrames, hparse, joinFrames, hjoin, hmore, if_true]
    obtain ⟨hp, ha, hf, hbuffer, hunfinished⟩ := ih
    exact ⟨hp, congrArg (_ :: ·) ha, hf, hbuffer, hunfinished⟩
  | last c bytes rest frame body hcut hparse hjoin hmore ih =>
    rw [pollAll_of_last hcut hparse hjoin hmore, cutFrames_eq, hcut]
    simp only [parseFrames, hparse, joinFrames, hjoin, hmore, Bool.false_eq_true, if_false]
    obtain ⟨hp, ha, hf, hbuffer, hunfinished⟩ := ih
    exact ⟨congrArg (_ :: ·) hp, congrArg (_ :: ·) ha, hf, hbuffer, hunfinished⟩

theorem reading_of_unfinished_none {c : Codec} (h : c.unfinished = none) :
    c.reading = readStream c.limit c.buffer := by
  simp only [Codec.reading, readStream, h, (readGroups_groups _).1]

/-- A codec that is fed a stream in any chunks, and polled behind each until nothing comes, gives
what the whole stream says. Every poll ends, after a turn for each frame in the buffer at most. -/
theorem pollChunks_reads_stream (limit peerLimit : Nat) (chunks : List Bytes) :
    (Codec.pollChunks { limit, peerLimit } chunks).Reads (readStream limit chunks.flatten) ∧
      ∀ c : Codec, Codec.pollWithin (c.buffer.length / Frame.headerSize + 1) c = some c.poll := by
  refine ⟨?_, fun c => c.pollWithin_eq _ (Nat.lt_mul_div_succ _ (by decide))⟩
  let fresh : Codec := { limit, peerLimit }
  obtain ⟨⟨hp, ha, hf⟩, hcodec⟩ :=
    Codec.pollChunks_eq (c := fresh) (Codec.pollAll_of_cut_none rfl) chunks
  have hreads := (fresh.feed chunks.flatten).pollAll_reads
  rw [reading_of_unfinished_none rfl] at hreads
  exact
    { performatives := hp.trans hreads.performatives
      arrivals := ha.trans hreads.arrivals
      fault := hf.trans hreads.fault
      buffer := fun h => by
        rw [hf] at h
        rw [hcodec h]
        exact hreads.buffer h
      unfinished := fun h => by
        rw [hf] at h
        rw [hcodec h]
        exact hreads.unfinished h }

end FramedSasl
