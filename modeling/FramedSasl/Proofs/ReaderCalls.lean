import FramedSasl.Proofs.FrameRoundTrip
import FramedSasl.Proofs.ReadFaults
import Mathlib.Tactic.Ring

/-! Fields read one behind the other, in any order, from any bytes. Each query that succeeds moves
the cursor on by some bytes, and what it answers is made of these (`Fetched`). A run of queries
stays within its bytes up to the first that fails (`stays_visits`), and does not know what lies
behind (`visits_extend`). The body of a frame is read like this, behind a header of eight bytes. -/

namespace FramedSasl

open Wire Reader

namespace Wire

/-- What a reader can be asked for. -/
inductive Query where
  | descriptor
  | listHeader
  | ubyte
  | binary
  | string
  | symbol
  | symbols
  deriving DecidableEq

inductive Answer where
  | number (n : Nat)
  | ubyte (value : Option UInt8)
  | bytes (value : Option Bytes)
  | names (values : List Bytes)
  deriving DecidableEq

def Query.reader : Query → Reader Answer
  | descriptor => .number <$> Reader.descriptor
  | listHeader => .number <$> Reader.listHeader
  | ubyte => .ubyte <$> Reader.ubyte?
  | binary => .bytes <$> Reader.binary?
  | string => .bytes <$> Reader.string?
  | symbol => .bytes <$> Reader.symbol?
  | symbols => .names <$> Reader.symbols

/-- All that is answered has been taken: a number or a value is the last of it, and names lie in
it one behind the other. -/
def Answer.From (taken : Bytes) : Answer → Prop
  | number n => ∃ word, word <:+ taken ∧ readBE word = n
  | ubyte value => ∀ b ∈ value, [b] <:+ taken
  | bytes value => ∀ bytes ∈ value, bytes <:+ taken
  | names values => values.flatten.Sublist taken ∧ ∀ name ∈ values, name <:+: taken

theorem Answer.From.append {answer : Answer} {taken : Bytes} (front : Bytes)
    (h : answer.From taken) : answer.From (front ++ taken) := by
  have hback : taken <:+ front ++ taken := List.suffix_append front taken
  cases answer with
  | number n =>
    obtain ⟨word, hword, hn⟩ := h
    exact ⟨word, hword.trans hback, hn⟩
  | ubyte value => exact fun b hb => (h b hb).trans hback
  | bytes value => exact fun bytes hbytes => (h bytes hbytes).trans hback
  | names values =>
    exact ⟨h.1.trans hback.sublist, fun name hname => (h.2 name hname).trans hback.isInfix⟩

theorem readBE_append (front back : Bytes) :
    readBE (front ++ back) = readBE front * 256 ^ back.length + readBE back := by
  have hfold (start : Nat) : back.foldl (fun acc b => acc * 256 + b.toNat) start =
      start * 256 ^ back.length + readBE back := by
    induction back generalizing start with
    | nil => exact (Nat.mul_one start).symm
    | cons b back ih =>
      have hback : readBE (b :: back) = b.toNat * 256 ^ back.length + readBE back := by
        rw [readBE, List.foldl_cons, ih, Nat.zero_mul, Nat.zero_add]
      rw [List.foldl_cons, ih, hback, List.length_cons]
      ring
  rw [readBE, List.foldl_append]
  exact hfold _

namespace Reader

variable {α β : Type} {answer : α → Answer}

/-! ### Where answers come from -/

/-- What is answered has been taken. -/
def Sourced (reader : Reader α) (answer : α → Answer) : Prop :=
  Consumes reader fun taken value => (answer value).From taken

/-- Some bytes are taken, and what is answered is among them. -/
def Fetched (reader : Reader α) (answer : α → Answer) : Prop :=
  Consumes reader fun taken value => taken ≠ [] ∧ (answer value).From taken

namespace Consumes

variable {γ : Type} {spec : Bytes → α → Prop} {spec' : Bytes → β → Prop} {spec'' : Bytes → γ → Prop}

theorem get_bind {next : Cursor → Reader α} (h : ∀ c, Consumes (next c) spec) :
    Consumes (get >>= next) spec := fun c => h c c

theorem both {first : Reader α} {second : Reader β} {f : α → β → γ} (h : Consumes first spec)
    (h' : Consumes second spec') (hspec : ∀ taken a taken' b, spec taken a → spec' taken' b →
      spec'' (taken ++ taken') (f a b)) :
    Consumes (do let a ← first; let b ← second; return f a b) spec'' := by
  let mid (a : α) (taken' : Bytes) (c : γ) : Prop := ∃ b, spec' taken' b ∧ c = f a b
  have hsecond (a : α) : Consumes (do let b ← second; return f a b) (mid a) := by
    rw [bind_pure_comp]
    exact h'.map fun taken b hb => ⟨b, hb, rfl⟩
  refine h.bind hsecond ?_
  rintro taken a taken' _ ha ⟨b, hb, rfl⟩
  exact hspec taken a taken' b ha hb

end Consumes

namespace Sourced

/-- It does not matter what has been taken before. -/
theorem ahead {first : Reader β} {next : β → Reader α} (hfirst : Plain first)
    (h : ∀ b, Sourced (next b) answer) : Sourced (first >>= next) answer := by
  obtain ⟨scan, hfirst⟩ := hfirst
  exact hfirst.consumes.bind h fun front _ _ _ _ hvalue => hvalue.append front

theorem measured {next : Nat → Reader α} (h : ∀ left, Sourced (next left) answer) :
    Sourced (remaining >>= next) answer := fun c => h c.remaining c

theorem throw (fault : Fault) : Sourced (throw fault) answer := Consumes.throw fault

theorem ite {condition : Prop} [Decidable condition] {reader other : Reader α}
    (h : Sourced reader answer) (hother : Sourced other answer) :
    Sourced (if condition then reader else other) answer :=
  Consumes.ite h hother

end Sourced

theorem Fetched.bind {first : Reader β} {next : β → Reader α}
    (hfirst : Consumes first fun taken _ => taken ≠ []) (h : ∀ b, Sourced (next b) answer) :
    Fetched (first >>= next) answer := by
  refine hfirst.bind h fun taken _ taken' value hsome hvalue => ⟨?_, hvalue.append taken⟩
  exact fun hnone => hsome (List.append_eq_nil_iff.1 hnone).1

theorem Fetched.map {f : α → β} {answer' : β → Answer} {reader : Reader α}
    (h : Fetched reader answer)
    (hspec : ∀ taken value, (answer value).From taken → (answer' (f value)).From taken) :
    Fetched (f <$> reader) answer' :=
  Consumes.map h fun taken value hvalue => ⟨hvalue.1, hspec taken value hvalue.2⟩

theorem consumes_byte_some : Consumes byte fun taken _ => taken ≠ [] :=
  consumes_byte.mono fun _ b h => h ▸ List.cons_ne_nil b []

theorem sourced_size (width : Width) : Sourced (size width) .number := by
  cases width with
  | bits8 =>
    refine consumes_byte.map ?_
    rintro _ b rfl
    exact ⟨[b], List.suffix_rfl, Nat.zero_add _⟩
  | bits32 => exact consumes_word.mono fun taken n h => ⟨taken, List.suffix_rfl, h.1⟩

theorem sourced_sizedBytes (width : Width) : Sourced (sizedBytes width) (.bytes ∘ some) := by
  refine .ahead (plain_size width) fun n => (consumes_bytes n).mono ?_
  rintro taken _ rfl _ ⟨⟩
  exact List.suffix_rfl

theorem sourced_sizedValue (narrow wide code : UInt8) :
    Sourced (sizedValue narrow wide code) (.bytes ∘ some) := by
  refine .ite (sourced_sizedBytes _) (.ite (sourced_sizedBytes _) ?_)
  rintro c _ _ ⟨⟩

theorem fetched_optional (narrow wide : UInt8) : Fetched (optional narrow wide) .bytes := by
  refine .bind consumes_byte_some fun code => .ite (.pure ?_) ((sourced_sizedValue _ _ _).map ?_)
  · rintro _ ⟨⟩
  · exact fun taken bytes h => h

theorem fetched_ubyte? : Fetched ubyte? .ubyte := by
  refine .bind consumes_byte_some fun code => .ite (.pure ?_) (.ite (consumes_byte.map ?_) ?_)
  · rintro _ ⟨⟩
  · rintro _ b rfl _ ⟨⟩
    exact List.suffix_rfl
  · exact .throw _

theorem fetched_descriptor : Fetched descriptor .number := by
  refine .bind consumes_byte_some fun _ => .ite (.throw _) (.ahead .byte fun _ => ?_)
  refine .ite (sourced_size .bits8) (.ite ?_ (.throw _))
  -- two words in a row are one number of eight bytes
  refine consumes_word.both consumes_word ?_
  rintro front high taken low ⟨hhigh, -⟩ ⟨hlow, hlength⟩
  refine ⟨front ++ taken, List.suffix_rfl, ?_⟩
  rw [readBE_append, hhigh, hlow, hlength]
  rfl

theorem sourced_listCount (width : Width) (least : Nat) :
    Sourced (listCount width least) .number :=
  .ahead (plain_size width) fun _ => .measured fun _ => .ite (.throw _) (sourced_size width)

theorem fetched_listHeader : Fetched listHeader .number := by
  refine .bind consumes_byte_some fun _ => .ite (.pure ⟨[], List.nil_suffix, rfl⟩) ?_
  exact .ite (sourced_listCount _ _) (.ite (sourced_listCount _ _) (.throw _))

theorem sourced_elements {readers : List (Reader Bytes)}
    (h : ∀ reader ∈ readers, Sourced reader (.bytes ∘ some)) :
    Sourced (readers.mapM id) .names := by
  induction readers with
  | nil => exact .pure ⟨List.Sublist.slnil, fun _ hname => absurd hname List.not_mem_nil⟩
  | cons reader readers ih =>
    obtain ⟨hreader, hreaders⟩ := List.forall_mem_cons.1 h
    rw [List.mapM_cons]
    refine Consumes.both hreader (ih hreaders) ?_
    rintro front name taken names hname ⟨hsublist, hlies⟩
    have hsuffix : name <:+ front := hname name rfl
    refine ⟨hsuffix.sublist.append hsublist, List.forall_mem_cons.2 ⟨?_, fun other hother => ?_⟩⟩
    · exact hsuffix.isInfix.trans (List.prefix_append front taken).isInfix
    · exact (hlies other hother).trans (List.suffix_append front taken).isInfix

theorem sourced_arrayBody (width : Width) : Sourced (arrayBody width) .names := by
  refine .ahead (plain_size width) fun _ => .measured fun _ => .ite (.throw _) ?_
  refine .ahead (plain_size width) fun _ => .ahead .byte fun _ => .ite (.throw _) ?_
  refine .measured fun _ => .ite (.throw _) (sourced_elements fun reader hmem => ?_)
  rw [List.eq_of_mem_replicate hmem]
  exact sourced_sizedBytes _

theorem fetched_symbols : Fetched symbols .names := by
  have hcode : Consumes (discard byte) fun taken _ => taken ≠ [] :=
    consumes_byte_some.map fun _ _ h => h
  refine Consumes.get_bind fun c => .ite ?_ (.ite ?_ ?_)
  · exact Fetched.bind hcode fun _ => sourced_arrayBody .bits8
  · exact Fetched.bind hcode fun _ => sourced_arrayBody .bits32
  · rw [bind_pure_comp]
    refine (fetched_optional _ _).map fun taken value h => ?_
    cases value with
    | none => exact ⟨List.nil_sublist taken, fun _ hname => absurd hname List.not_mem_nil⟩
    | some name =>
      have hsuffix : name <:+ taken := h name rfl
      refine ⟨?_, List.forall_mem_singleton.2 hsuffix.isInfix⟩
      simpa using hsuffix.sublist

end Reader

namespace Query

theorem plain (query : Query) : Plain query.reader := by
  cases query with
  | descriptor => exact plain_descriptor.map _
  | listHeader => exact plain_listHeader.map _
  | ubyte => exact plain_ubyte?.map _
  | binary | string | symbol => exact (plain_optional _ _).map _
  | symbols => exact plain_symbols.map _

theorem fetched (query : Query) : Fetched query.reader id := by
  cases query with
  | descriptor => exact fetched_descriptor.map fun _ _ h => h
  | listHeader => exact fetched_listHeader.map fun _ _ h => h
  | ubyte => exact fetched_ubyte?.map fun _ _ h => h
  | binary | string | symbol => exact (fetched_optional _ _).map fun _ _ h => h
  | symbols => exact fetched_symbols.map fun _ _ h => h

end Query

/-! ### One query behind the other -/

/-- A query, where it is asked, and what comes of it. -/
structure Visit where
  query : Query
  before : Cursor
  result : Except Fault (Answer × Cursor)

namespace Visit

def succeeds (v : Visit) : Bool := v.result.toBool

def extend (tail : Bytes) (v : Visit) : Visit :=
  ⟨v.query, v.before.extend tail, v.result.map fun (answer, after) => (answer, after.extend tail)⟩

/-- It stays in `data`. -/
structure Stays (v : Visit) (data : Bytes) : Prop where
  before : v.before.Within data
  scanned : ∃ scan, Indexed v.query.reader scan ∧ scan data v.before.position =
    some (v.result.map fun (answer, after) => (answer, after.position))
  malformed : ∀ fault, v.result = .error fault → fault.kind = .malformedFrame
  taken : ∀ answer after, v.result = .ok (answer, after) → after.Within data ∧
    ∃ taken ≠ [], v.before.Moves taken after ∧ answer.From taken

end Visit

/-- The queries are asked up to the first that fails. -/
def visits : List Query → Cursor → List Visit
  | [], _ => []
  | query :: queries, c =>
    ⟨query, c, query.reader.run c⟩ :: match query.reader.run c with
      | .error _ => []
      | .ok (_, c') => visits queries c'

variable {data : Bytes} {c : Cursor}

theorem stays_visit (query : Query) (hc : c.Within data) :
    Visit.Stays ⟨query, c, query.reader.run c⟩ data := by
  obtain ⟨scan, hscan⟩ := query.plain
  refine ⟨hc, ⟨scan, hscan, hscan.scan_eq hc⟩, query.plain.malforms c, fun answer after h => ?_⟩
  obtain ⟨taken, hmoves, hsome, hfrom⟩ := query.fetched c answer after h
  exact ⟨hc.moves hmoves, taken, hsome, hmoves, hfrom⟩

theorem stays_visits (queries : List Query) (hc : c.Within data) :
    ∀ v ∈ visits queries c, v.Stays data := by
  induction queries generalizing c with
  | nil => exact fun v hv => absurd hv List.not_mem_nil
  | cons query queries ih =>
    have hfirst := stays_visit query hc
    refine List.forall_mem_cons.2 ⟨hfirst, ?_⟩
    rcases hrun : query.reader.run c with fault | ⟨answer, c'⟩
    · exact fun v hv => absurd hv List.not_mem_nil
    · exact ih (hfirst.taken answer c' hrun).1

/-- With more bytes behind, what succeeded does so alike. -/
theorem visits_extend (queries : List Query) (c : Cursor) (tail : Bytes) :
    ((visits queries c).filter Visit.succeeds).map (Visit.extend tail) <+:
      visits queries (c.extend tail) := by
  induction queries generalizing c with
  | nil => exact List.prefix_rfl
  | cons query queries ih =>
    unfold visits
    rcases hrun : query.reader.run c with fault | ⟨answer, c'⟩
    · exact List.nil_prefix
    · obtain ⟨scan, hscan⟩ := query.plain
      rw [hscan.append hrun]
      exact (List.prefix_cons_inj _).2 (ih c')

end Wire

namespace Frame

variable {data : Bytes}

/-- `parse` with every look by index, given how to read a body. -/
def scan (body : Scan Performative) (data : Bytes) : Option (Except Fault Frame) :=
  if data.length < headerSize then some (.error (.frame (.tooShort data.length)))
  else do
    let b₀ ← data[0]?
    let b₁ ← data[1]?
    let b₂ ← data[2]?
    let b₃ ← data[3]?
    let size := readBE [b₀, b₁, b₂, b₃]
    if size < headerSize then some (.error (.frame (.sizeBelowHeader size)))
    else if data.length < size then some (.error (.frame (.incomplete size data.length)))
    else
      let doff ← data[4]?
      let type ← data[5]?
      -- of the two bytes of flags, none of the first has a meaning
      let _ ← data[6]?
      let flags ← data[7]?
      let start := doff.toNat * 4
      if type ≠ saslType then some (.error (.frame (.wrongType type)))
      else if doff < dataOffset ∨ size < start then
        some (.error (.frame (.dataOffset doff size)))
      else if start = size then some (.error (.frame (.noBody size)))
      else
        let window ← Scan.slice? data start (size - start)
        (body window 0).map fun result => result.bind fun (p, _) => ofBody p flags

theorem exists_header (h : headerSize ≤ data.length) : ∃ b₀ b₁ b₂ b₃ doff type channel flags rest,
    data = b₀ :: b₁ :: b₂ :: b₃ :: doff :: type :: channel :: flags :: rest := by
  match data, h with
  | b₀ :: b₁ :: b₂ :: b₃ :: doff :: type :: channel :: flags :: rest, _ =>
    exact ⟨b₀, b₁, b₂, b₃, doff, type, channel, flags, rest, rfl⟩

theorem parse_of_short (h : data.length < headerSize) :
    parse data = .error (.frame (.tooShort data.length)) := by
  unfold parse
  split
  · exact absurd h (by simp [headerSize])
  · rfl

theorem ite_some {α : Type} {condition : Prop} [Decidable condition] {a b : α} {other : Option α}
    (h : ¬ condition → other = some b) :
    (if condition then some a else other) = some (if condition then a else b) := by
  split
  · rfl
  · next hnot => exact h hnot

theorem scan_eq {body : Scan Performative} (h : Indexed Performative.read body) (data : Bytes) :
    scan body data = some (parse data) := by
  unfold scan
  split
  · next hshort => rw [parse_of_short hshort]
  · next hlong =>
    obtain ⟨b₀, b₁, b₂, b₃, doff, type, channel, flags, rest, rfl⟩ :=
      exists_header (Nat.le_of_not_lt hlong)
    let data := b₀ :: b₁ :: b₂ :: b₃ :: doff :: type :: channel :: flags :: rest
    let size := readBE [b₀, b₁, b₂, b₃]
    let start := doff.toNat * 4
    change (if size < headerSize then _ else if data.length < size then _ else
      if type ≠ saslType then _ else if doff < dataOffset ∨ size < start then _ else
      if start = size then _ else _) = some (parseFields data size doff type flags)
    -- behind a whole header no look fails, and the refusals are those of `parse`, one by one
    refine ite_some fun _ => ite_some fun hwhole => ite_some fun _ => ite_some fun hoffset =>
      ite_some fun _ => ?_
    have hstart : start ≤ size := Nat.le_of_not_lt fun hlt => hoffset (.inr hlt)
    have hwindow : Scan.slice? data start (size - start) = some ((data.take size).drop start) := by
      rw [Scan.slice?, Nat.add_sub_cancel' hstart, if_pos (Nat.le_of_not_lt hwhole),
        List.drop_take]
    change (Scan.slice? data start (size - start)).bind _ = _
    rw [hwindow]
    have hread := h.scan_eq (Cursor.Within.start ((data.take size).drop start))
    change (body ((data.take size).drop start) 0).map _ = _
    rw [hread]
    generalize Performative.read.run { rest := (data.take size).drop start } = result
    rcases result with fault | ⟨p, cursor⟩ <;> rfl

/-- Only the bytes of the declared size are looked at. -/
theorem parse_append {size : Nat} (hheader : headerSize ≤ data.length)
    (hpeek : peekSize data = some size) (hsize : size ≤ data.length) (tail : Bytes) :
    parse (data ++ tail) = parse data := by
  obtain ⟨b₀, b₁, b₂, b₃, doff, type, channel, flags, rest, rfl⟩ := exists_header hheader
  cases hpeek
  generalize hdata : b₀ :: b₁ :: b₂ :: b₃ :: doff :: type :: channel :: flags :: rest = data at *
  have hfields : parse data = parseFields data (readBE [b₀, b₁, b₂, b₃]) doff type flags := by
    rw [← hdata]
    rfl
  have hfields' : parse (data ++ tail) =
      parseFields (data ++ tail) (readBE [b₀, b₁, b₂, b₃]) doff type flags := by
    rw [← hdata]
    rfl
  have hlength : readBE [b₀, b₁, b₂, b₃] ≤ (data ++ tail).length :=
    Nat.le_trans hsize (List.length_append ▸ Nat.le_add_right _ _)
  rw [hfields, hfields', parseFields, parseFields]
  simp only [if_neg (Nat.not_lt.2 hsize), if_neg (Nat.not_lt.2 hlength),
    List.take_append_of_le_length hsize]

/-- Whatever is asked of whatever bytes, one query behind the other up to the first that fails: no
look is outside of the bytes, every answer moves the cursor on by the bytes it comes from, more
bytes behind change no answer, and what fails is a malformed frame. So `parse` is safe on all bytes,
and of those behind the size that a frame declares it does not know. -/
theorem reads_within (data : Bytes) :
    (∀ queries, ∀ v ∈ visits queries { rest := data }, v.Stays data) ∧
    (∀ queries tail,
      ((visits queries { rest := data }).filter Visit.succeeds).map (Visit.extend tail) <+:
        visits queries { rest := data ++ tail }) ∧
    (∃ body, Indexed Performative.read body ∧ scan body data = some (parse data)) ∧
    (∀ fault, parse data = .error fault → fault.kind = .malformedFrame) ∧
    ∀ size tail, headerSize ≤ data.length → peekSize data = some size → size ≤ data.length →
      parse (data ++ tail) = parse data := by
  refine ⟨fun queries => stays_visits queries (.start data), fun queries tail => ?_, ?_, ?_, ?_⟩
  · exact visits_extend queries { rest := data } tail
  · obtain ⟨body, hbody⟩ := Performative.plain_read
    exact ⟨body, hbody, scan_eq hbody data⟩
  · exact fun fault => parse_error
  · exact fun size tail hheader hpeek hsize => parse_append hheader hpeek hsize tail

/-- The three reads of a challenge, and one too many. -/
theorem reads_within_challenge :
    let body := [0, 0x53, 0x42, 0xC0, 4, 1, 0xA0, 1, 7]
    let queries := [.descriptor, .listHeader, .binary, .ubyte]
    (visits queries { rest := body }).map (·.result.toOption.map Prod.fst) =
      [some (.number 0x42), some (.number 1), some (.bytes (some [7])), none] ∧
    (∀ v ∈ visits queries { rest := body }, v.Stays body) ∧
    parse (header 17 false ++ body ++ [0xFF]) = .ok ⟨.challenge [7], false⟩ := by
  intro body queries
  refine ⟨rfl, (reads_within body).1 queries, ?_⟩
  have happend := (reads_within (header 17 false ++ body)).2.2.2.2 17 [0xFF]
    (by decide) rfl (by decide)
  have hparse : parse (header 17 false ++ body) = .ok ⟨.challenge [7], false⟩ := by
    set_option maxRecDepth 4000 in rfl
  exact happend.trans hparse

end Frame

end FramedSasl
