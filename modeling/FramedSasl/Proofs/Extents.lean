import FramedSasl.Proofs.FrameClass

/-! The sizes that lists and arrays declare. A frame is read only if each of them ends within the
frame body, and no field is read behind that. But no field has to end within the list or the array
that declares it: any two sizes that end within the body are read alike. -/

namespace FramedSasl

namespace Wire

/-- Where the body ends, from any place in it. -/
def Cursor.bound (c : Cursor) : Nat := c.position + c.remaining

namespace Reader

variable {α β : Type}

/-! ### Within the body -/

/-- What `reader` takes moves the position as far as it shortens the rest. -/
def Advances (reader : Reader α) : Prop :=
  ∀ cursor value cursor', reader.run cursor = .ok (value, cursor') → cursor'.bound = cursor.bound

theorem Plain.advances {reader : Reader α} (h : Plain reader) : Advances reader := by
  intro cursor value cursor' hrun
  obtain ⟨scan, h⟩ := h
  obtain ⟨taken, hmoves, -⟩ := h.consumes cursor value cursor' hrun
  rw [Cursor.bound, Cursor.bound, Cursor.remaining, Cursor.remaining, hmoves.rest_eq,
    hmoves.position_eq, List.length_append, Nat.add_assoc]

/-! ### Declared ends -/

/-- Where a value ends by the size in front of it. -/
def extent (width : Width) : Reader Nat := do
  let n ← size width
  return (← get).position + n

/-- Where a list or an array ends by its size, if it declares one. -/
def declaredEnd (narrow wide : UInt8) : Reader (Option Nat) := do
  let code ← byte
  if code = narrow then some <$> extent .bits8
  else if code = wide then some <$> extent .bits32
  else return none

/-- A reader that takes a size only if it ends within the body. -/
def Encloses (reader : Reader α) (width : Width) : Prop :=
  ∀ cursor value cursor' stop cursor'', reader.run cursor = .ok (value, cursor') →
    (extent width).run cursor = .ok (stop, cursor'') → stop ≤ cursor.bound

theorem encloses_of_checked {width : Width} {check : Nat → Nat → Prop}
    [∀ n left, Decidable (check n left)] {refused : Nat → Nat → Fault} {next : Reader α}
    (hcheck : ∀ n left, ¬ check n left → n ≤ left) :
    Encloses (do
      let n ← size width
      let left ← remaining
      if check n left then throw (refused n left) else next) width := by
  intro cursor value cursor' stop cursor'' hread hextent
  obtain ⟨n, middle, hsize, hrest⟩ := run_bind_ok hread
  obtain ⟨n', middle', hsize', hstop⟩ := run_bind_ok hextent
  cases hsize.symm.trans hsize'
  have hbound := (plain_size width).advances cursor n middle hsize
  obtain ⟨left, after, hleft, hlater⟩ := run_bind_ok hrest
  cases hleft
  cases hstop
  split at hlater
  · cases hlater
  · next hroom =>
    rw [← hbound]
    exact Nat.add_le_add_left (hcheck _ _ hroom) _

theorem encloses_listCount (width : Width) (least : Nat) : Encloses (listCount width least) width :=
  encloses_of_checked fun _ _ hroom => Nat.le_of_not_lt fun hlt => hroom (.inr hlt)

theorem encloses_arrayBody (width : Width) : Encloses (arrayBody width) width :=
  encloses_of_checked fun _ _ hroom => Nat.le_of_not_lt hroom

variable {narrow wide : UInt8} {cursor cursor' cursor'' : Cursor} {stop : Nat}

/-- Only behind one of the two codes that have a size is an end declared. -/
theorem run_declaredEnd (h : (declaredEnd narrow wide).run cursor = .ok (some stop, cursor'')) :
    ∃ code middle, byte.run cursor = .ok (code, middle) ∧
      (code = narrow ∧ (extent .bits8).run middle = .ok (stop, cursor'') ∨
        code ≠ narrow ∧ code = wide ∧ (extent .bits32).run middle = .ok (stop, cursor'')) := by
  obtain ⟨code, middle, hbyte, hrest⟩ := run_bind_ok h
  refine ⟨code, middle, hbyte, ?_⟩
  split at hrest
  · next hcode =>
    rw [← bind_pure_comp] at hrest
    obtain ⟨_, _, hextent, hstop⟩ := run_bind_ok hrest
    cases hstop
    exact .inl ⟨hcode, hextent⟩
  · next hother =>
    split at hrest
    · next hcode =>
      rw [← bind_pure_comp] at hrest
      obtain ⟨_, _, hextent, hstop⟩ := run_bind_ok hrest
      cases hstop
      exact .inr ⟨hother, hcode, hextent⟩
    · cases hrest

/-- The list that is read ends within the body. -/
theorem listEnd_le {count : Nat} (hread : listHeader.run cursor = .ok (count, cursor'))
    (hend : (declaredEnd TypeCode.list8 TypeCode.list32).run cursor = .ok (some stop, cursor'')) :
    stop ≤ cursor.bound := by
  obtain ⟨code, middle, hbyte, hstop⟩ := run_declaredEnd hend
  obtain ⟨code', middle', hbyte', hlist⟩ := run_bind_ok hread
  cases hbyte.symm.trans hbyte'
  rw [← Plain.byte.advances cursor code middle hbyte]
  rcases hstop with ⟨rfl, hextent⟩ | ⟨hnarrow, rfl, hextent⟩
  · exact encloses_listCount .bits8 1 middle count cursor' stop cursor'' hlist hextent
  · exact encloses_listCount .bits32 4 middle count cursor' stop cursor'' hlist hextent

/-- The array that is read ends within the body. -/
theorem arrayEnd_le {names : List Bytes} (hread : symbols.run cursor = .ok (names, cursor'))
    (hend : (declaredEnd TypeCode.array8 TypeCode.array32).run cursor = .ok (some stop, cursor'')) :
    stop ≤ cursor.bound := by
  obtain ⟨code, middle, hbyte, hstop⟩ := run_declaredEnd hend
  rw [← Plain.byte.advances cursor code middle hbyte]
  obtain ⟨position, rest⟩ := cursor
  cases rest with
  | nil => cases hbyte
  | cons b rest =>
    cases hbyte
    rcases hstop with ⟨rfl, hextent⟩ | ⟨hnarrow, rfl, hextent⟩
    · exact encloses_arrayBody .bits8 _ names cursor' stop cursor'' hread hextent
    · exact encloses_arrayBody .bits32 _ names cursor' stop cursor'' hread hextent

end Reader

/-! ### Sizes that are read alike -/

/-- The largest size that a field of this width holds. -/
def largest : Width → Nat
  | .bits8 => maxNarrow
  | .bits32 => wordCount - 1

/-- A size field of this width. -/
def sizeBytes : Width → Nat → Bytes
  | .bits8, n => [UInt8.ofNat n]
  | .bits32, n => be32 n

/-- The least size of a list: that of its count. -/
def leastList : Width → Nat
  | .bits8 => 1
  | .bits32 => 4

def listCode : Width → UInt8
  | .bits8 => TypeCode.list8
  | .bits32 => TypeCode.list32

def arrayCode : Width → UInt8
  | .bits8 => TypeCode.array8
  | .bits32 => TypeCode.array32

/-- Where `n` bytes end behind a code at `place` and their size. -/
def stopAt (place : Nat) (width : Width) (n : Nat) : Nat :=
  place + 1 + (sizeBytes width n).length + n

/-- A size of at least `least` that ends within what lies behind it. -/
structure Ranges (width : Width) (least : Nat) (behind : Bytes) (n : Nat) : Prop where
  least_le : least ≤ n
  le_length : n ≤ behind.length
  le_largest : n ≤ largest width

namespace Reader

variable {width : Width} {n n' stop : Nat} {behind : Bytes}

theorem takes_sizeBytes (h : n ≤ largest width) : Takes (size width) (sizeBytes width n) n := by
  cases width with
  | bits8 => exact takes_narrow_size h
  | bits32 => exact takes_word (Nat.lt_of_le_pred (by decide) h)

theorem length_sizeBytes (width : Width) (n n' : Nat) :
    (sizeBytes width n).length = (sizeBytes width n').length := by
  cases width <;> rfl

theorem run_declaredEnd_sized {code : Width → UInt8} (hcode : code .bits32 ≠ code .bits8)
    (h : n ≤ largest width) {position : Nat} (hstop : stopAt position width n = stop)
    (behind : Bytes) :
    ∃ cursor, (declaredEnd (code .bits8) (code .bits32)).run
      ⟨position, code width :: (sizeBytes width n ++ behind)⟩ = .ok (some stop, cursor) := by
  have hextent : (some <$> extent width).run ⟨position + 1, sizeBytes width n ++ behind⟩ =
      .ok (some stop, ⟨position + 1 + (sizeBytes width n).length, behind⟩) := by
    rw [StateT.run_map, extent, StateT.run_bind, takes_sizeBytes h, ← hstop]
    rfl
  refine ⟨_, Eq.trans ?_ hextent⟩
  cases width with
  | bits8 => exact congrFun (if_pos rfl) _
  | bits32 => exact (congrFun (if_neg hcode) _).trans (congrFun (if_pos rfl) _)

/-- Behind the check the size of a list is not used. -/
theorem run_listHeader (h : Ranges width (leastList width) behind n) (position : Nat) :
    listHeader.run ⟨position, listCode width :: (sizeBytes width n ++ behind)⟩ =
      (size width).run ⟨position + 1 + (sizeBytes width n).length, behind⟩ := by
  have hheader : listHeader.run ⟨position, listCode width :: (sizeBytes width n ++ behind)⟩ =
      (listCount width (leastList width)).run ⟨position + 1, sizeBytes width n ++ behind⟩ := by
    cases width <;> rfl
  have hroom : ¬ (n < leastList width ∨ behind.length < n) :=
    not_or_intro (Nat.not_lt.2 h.least_le) (Nat.not_lt.2 h.le_length)
  rw [hheader, listCount, StateT.run_bind, takes_sizeBytes h.le_largest]
  exact congrFun (if_neg hroom) _

/-- Behind the check the size of an array is not used. -/
theorem run_symbols_resized (h : Ranges width 0 behind n) (h' : Ranges width 0 behind n')
    (position : Nat) :
    symbols.run ⟨position, arrayCode width :: (sizeBytes width n ++ behind)⟩ =
      symbols.run ⟨position, arrayCode width :: (sizeBytes width n' ++ behind)⟩ := by
  have hsymbols : ∀ n, symbols.run ⟨position, arrayCode width :: (sizeBytes width n ++ behind)⟩ =
      (arrayBody width).run ⟨position + 1, sizeBytes width n ++ behind⟩ := by
    intro n
    cases width <;> rfl
  rw [hsymbols, hsymbols, arrayBody, StateT.run_bind, StateT.run_bind,
    takes_sizeBytes h.le_largest, takes_sizeBytes h'.le_largest, length_sizeBytes width n n']
  exact (congrFun (if_neg (Nat.not_lt.2 h.le_length)) _).trans
    (congrFun (if_neg (Nat.not_lt.2 h'.le_length)) _).symm

/-- A list is written with the size of all that lies behind it. -/
theorem exists_listBytes {fields : Bytes} {count : Nat}
    (h : (listBytes fields count).length < wordCount) :
    ∃ width, let behind := sizeBytes width count ++ fields
      Ranges width (leastList width) behind behind.length ∧
        listBytes fields count =
          listCode width :: (sizeBytes width behind.length ++ behind) := by
  unfold listBytes at h ⊢
  split
  · next hnarrow =>
    refine ⟨.bits8, ⟨?_, Nat.le_refl _, ?_⟩, rfl⟩
    · simp [leastList, sizeBytes]
    · simpa [largest, sizeBytes] using hnarrow.2
  · next hwide =>
    rw [if_neg hwide] at h
    have hlength : (be32 count ++ fields).length = fields.length + 4 := by
      rw [List.length_append, length_be32, Nat.add_comm]
    rw [← hlength] at h ⊢
    refine ⟨.bits32, ⟨?_, Nat.le_refl _, ?_⟩, rfl⟩
    · simp [leastList, sizeBytes, length_be32]
    · simp only [List.length_cons, List.length_append] at h
      simp only [largest, sizeBytes, List.length_append]
      omega

/-- So is an array. -/
theorem exists_symbolArray {names : List Bytes} (h : (symbolArray names).length < wordCount) :
    ∃ width behind, behind.length ≤ largest width ∧
      symbolArray names = arrayCode width :: (sizeBytes width behind.length ++ behind) := by
  unfold symbolArray at h ⊢
  split
  · next hnarrow => exact ⟨.bits8, narrowArrayBody names, hnarrow.2.2, rfl⟩
  · next hwide =>
    rw [if_neg hwide] at h
    simp only [List.length_cons, List.length_append] at h
    exact ⟨.bits32, wideArrayBody names, by simp only [largest]; omega, rfl⟩

end Reader

end Wire

open Wire Reader

namespace Performative

/-- Where the list of fields ends by its size, if it declares one. -/
def listEnd : Reader (Option Nat) := do
  let _ ← descriptor
  declaredEnd TypeCode.list8 TypeCode.list32

/-- Where the array of mechanisms ends by its size, if there is one. -/
def arrayEnd : Reader (Option Nat) := do
  let _ ← descriptor
  if (← listHeader) = 0 then return none
  else declaredEnd TypeCode.array8 TypeCode.array32

/-- The list of a body, or the array if it is that of an offer, ends at `stop` by its size. -/
def Declares (kind : Kind) (body : Bytes) (stop : Nat) : Prop :=
  (∃ cursor, listEnd.run { rest := body } = .ok (some stop, cursor)) ∨
    kind = .mechanisms ∧ ∃ cursor, arrayEnd.run { rest := body } = .ok (some stop, cursor)

variable {p : Performative} {cursor cursor' cursor'' : Cursor} {stop : Nat}

theorem yields_kind (kind : Kind) (count : Nat) :
    Yields (readFields kind count) fun p => p.kind = kind := by
  cases kind with
  | mechanisms => exact .ite (.pure rfl) (.map _ fun _ => rfl)
  | init =>
    refine Yields.bind fun _ => Yields.bind fun _ => Yields.bind fun _ => ?_
    exact .pure rfl
  | challenge => exact .map _ fun _ => rfl
  | response => exact .map _ fun _ => rfl
  | outcome =>
    refine Yields.bind fun byte => ?_
    cases Outcome.ofCode? byte with
    | none => exact .throw _
    | some code => exact Yields.bind fun _ => .pure rfl

theorem run_read (h : read.run cursor = .ok (p, cursor')) :
    ∃ number count first second, descriptor.run cursor = .ok (number, first) ∧
      listHeader.run first = .ok (count, second) ∧
        (readFields p.kind count).run second = .ok (p, cursor') := by
  obtain ⟨number, first, hnumber, hrest⟩ := run_bind_ok h
  cases hkind : Kind.ofDescriptor? number with
  | none =>
    rw [hkind] at hrest
    cases hrest
  | some kind =>
    rw [hkind] at hrest
    obtain ⟨count, second, hcount, hfields⟩ := run_bind_ok hrest
    obtain rfl := yields_kind kind count second p cursor' hfields
    exact ⟨number, count, first, second, hnumber, hcount, hfields⟩

theorem listEnd_le (hread : read.run cursor = .ok (p, cursor'))
    (hend : listEnd.run cursor = .ok (some stop, cursor'')) : stop ≤ cursor.bound := by
  obtain ⟨number, count, first, second, hnumber, hcount, -⟩ := run_read hread
  obtain ⟨_, first', hnumber', hdeclared⟩ := run_bind_ok hend
  cases hnumber.symm.trans hnumber'
  rw [← plain_descriptor.advances cursor number first hnumber]
  exact Reader.listEnd_le hcount hdeclared

theorem arrayEnd_le (hread : read.run cursor = .ok (p, cursor')) (hkind : p.kind = .mechanisms)
    (hend : arrayEnd.run cursor = .ok (some stop, cursor'')) : stop ≤ cursor.bound := by
  obtain ⟨number, count, first, second, hnumber, hcount, hfields⟩ := run_read hread
  obtain ⟨_, first', hnumber', hlist⟩ := run_bind_ok hend
  cases hnumber.symm.trans hnumber'
  obtain ⟨count', second', hcount', hdeclared⟩ := run_bind_ok hlist
  cases hcount.symm.trans hcount'
  rw [← plain_descriptor.advances cursor number first hnumber,
    ← plain_listHeader.advances first count second hcount]
  rw [hkind] at hfields
  change (if _ then _ else _ : Reader Performative).run second = _ at hfields
  by_cases hnone : count = 0
  · rw [if_pos hnone] at hdeclared
    cases hdeclared
  · rw [if_neg hnone] at hdeclared hfields
    rw [← bind_pure_comp] at hfields
    obtain ⟨names, after, hsymbols, -⟩ := run_bind_ok hfields
    exact Reader.arrayEnd_le hsymbols hdeclared

theorem Declares.le_length {body : Bytes} (h : Declares p.kind body stop)
    (hread : read.run { rest := body } = .ok (p, cursor')) : stop ≤ body.length := by
  have hbound : (Cursor.mk 0 body).bound = body.length := Nat.zero_add _
  rw [← hbound]
  rcases h with ⟨there, hend⟩ | ⟨hkind, there, hend⟩
  · exact listEnd_le hread hend
  · exact arrayEnd_le hread hkind hend

/-- No field is read behind the body. -/
theorem position_le {body : Bytes} (hread : read.run { rest := body } = .ok (p, cursor')) :
    cursor'.position ≤ body.length := by
  have hbound : cursor'.bound = 0 + body.length := plain_read.advances _ p cursor' hread
  rw [← Nat.zero_add body.length, ← hbound]
  exact Nat.le_add_right _ _

/-- What is read behind the descriptor. -/
def readBehind (number : Nat) : Reader Performative := do
  match Kind.ofDescriptor? number with
  | none => throw (.frame (.unknownPerformative number))
  | some kind => readFields kind (← listHeader)

theorem run_read_append {front : Bytes} {number : Nat} (hfront : Takes descriptor front number)
    (behind : Bytes) :
    read.run { rest := front ++ behind } = (readBehind number).run ⟨0 + front.length, behind⟩ := by
  have hread : read = descriptor >>= readBehind := rfl
  rw [hread, StateT.run_bind, hfront]
  rfl

/-- Of the list only its count matters, and what lies behind it. -/
theorem readBehind_congr {number : Nat} {cursor cursor' : Cursor}
    (h : listHeader.run cursor = listHeader.run cursor') :
    (readBehind number).run cursor = (readBehind number).run cursor' := by
  unfold readBehind
  cases Kind.ofDescriptor? number with
  | none => rfl
  | some kind =>
    dsimp only
    rw [StateT.run_bind, StateT.run_bind, h]

variable {front behind : Bytes} {number m n n' : Nat} {outer width : Width}

/-- A body with a list of `n` bytes. -/
def listBody (front : Bytes) (width : Width) (n : Nat) (behind : Bytes) : Bytes :=
  front ++ listCode width :: (sizeBytes width n ++ behind)

/-- Where the array in such a list starts: behind the list's code, its size and its count. -/
def arrayPlace (front : Bytes) (outer : Width) : Nat :=
  front.length + 1 + (sizeBytes outer 1).length + (sizeBytes outer 1).length

/-- A body with a list of one field, an array of `n` bytes. -/
def offerBody (front : Bytes) (outer width : Width) (m n : Nat) (behind : Bytes) : Bytes :=
  listBody front outer m (sizeBytes outer 1 ++ arrayCode width :: (sizeBytes width n ++ behind))

/-- A list with the size of all that lies behind it ends with the body. -/
theorem length_listBody (front : Bytes) (width : Width) (behind : Bytes) :
    (listBody front width behind.length behind).length =
      stopAt front.length width behind.length := by
  simp only [listBody, stopAt, List.length_append, List.length_cons]
  omega

/-- So does an array. -/
theorem length_offerBody (front : Bytes) (outer : Width) (m : Nat) (width : Width)
    (behind : Bytes) :
    (offerBody front outer width m behind.length behind).length =
      stopAt (arrayPlace front outer) width behind.length := by
  simp only [offerBody, listBody, stopAt, arrayPlace, List.length_append, List.length_cons,
    length_sizeBytes outer m 1]
  omega

theorem length_listBody_resized (front : Bytes) (width : Width) (behind : Bytes) (n n' : Nat) :
    (listBody front width n behind).length = (listBody front width n' behind).length := by
  simp only [listBody, List.length_append, List.length_cons, length_sizeBytes width n n']

theorem length_offerBody_resized (front : Bytes) (outer width : Width) (m : Nat) (behind : Bytes)
    (n n' : Nat) : (offerBody front outer width m n behind).length =
      (offerBody front outer width m n' behind).length := by
  simp only [offerBody, listBody, List.length_append, List.length_cons,
    length_sizeBytes width n n']

theorem run_read_resized (hfront : Takes descriptor front number)
    (h : Ranges width (leastList width) behind n) (h' : Ranges width (leastList width) behind n') :
    read.run { rest := listBody front width n behind } =
      read.run { rest := listBody front width n' behind } := by
  rw [listBody, listBody, run_read_append hfront, run_read_append hfront]
  apply readBehind_congr
  rw [run_listHeader h, run_listHeader h', length_sizeBytes width n n']

theorem run_offer (hfront : Takes descriptor front Kind.mechanisms.descriptor.toNat)
    (hlist : Ranges outer (leastList outer)
      (sizeBytes outer 1 ++ arrayCode width :: (sizeBytes width n ++ behind)) m) :
    read.run { rest := offerBody front outer width m n behind } = (mechanisms <$> symbols).run
      ⟨0 + front.length + 1 + (sizeBytes outer m).length + (sizeBytes outer 1).length,
        arrayCode width :: (sizeBytes width n ++ behind)⟩ := by
  rw [offerBody, listBody, run_read_append hfront]
  unfold readBehind
  rw [Kind.ofDescriptor?_descriptor]
  dsimp only
  rw [StateT.run_bind, run_listHeader hlist, takes_sizeBytes (by cases outer <;> decide)]
  rfl

theorem kind_of_run_offer (hfront : Takes descriptor front Kind.mechanisms.descriptor.toNat)
    (hlist : Ranges outer (leastList outer)
      (sizeBytes outer 1 ++ arrayCode width :: (sizeBytes width n ++ behind)) m)
    (h : read.run { rest := offerBody front outer width m n behind } = .ok (p, cursor)) :
    p.kind = .mechanisms := by
  rw [run_offer hfront hlist, ← bind_pure_comp] at h
  obtain ⟨names, after, -, hp⟩ := run_bind_ok h
  cases hp
  rfl

/-- The list keeps its range: the array is as long as it was. -/
theorem ranges_resized {least : Nat} (n' : Nat)
    (h : Ranges outer least
      (sizeBytes outer 1 ++ arrayCode width :: (sizeBytes width n ++ behind)) m) :
    Ranges outer least
      (sizeBytes outer 1 ++ arrayCode width :: (sizeBytes width n' ++ behind)) m := by
  refine ⟨h.least_le, Nat.le_trans h.le_length (Nat.le_of_eq ?_), h.le_largest⟩
  simp only [List.length_append, List.length_cons, length_sizeBytes width n n']

theorem run_offer_resized (hfront : Takes descriptor front Kind.mechanisms.descriptor.toNat)
    (hlist : Ranges outer (leastList outer)
      (sizeBytes outer 1 ++ arrayCode width :: (sizeBytes width n ++ behind)) m)
    (h : Ranges width 0 behind n) (h' : Ranges width 0 behind n') :
    read.run { rest := offerBody front outer width m n behind } =
      read.run { rest := offerBody front outer width m n' behind } := by
  rw [run_offer hfront hlist, run_offer hfront (ranges_resized n' hlist), StateT.run_map,
    StateT.run_map, run_symbols_resized h h']

/-! ### The ends that a body declares -/

theorem run_listEnd (hfront : Takes descriptor front number) (h : n ≤ largest width)
    (behind : Bytes) :
    ∃ cursor, listEnd.run { rest := listBody front width n behind } =
      .ok (some (stopAt front.length width n), cursor) := by
  rw [listEnd, StateT.run_bind, listBody, hfront]
  exact run_declaredEnd_sized (by decide) h (by rw [Nat.zero_add]) behind

theorem run_arrayEnd (hfront : Takes descriptor front number)
    (hlist : Ranges outer (leastList outer)
      (sizeBytes outer 1 ++ arrayCode width :: (sizeBytes width n ++ behind)) m)
    (h : n ≤ largest width) :
    ∃ cursor, arrayEnd.run { rest := offerBody front outer width m n behind } =
      .ok (some (stopAt (arrayPlace front outer) width n), cursor) := by
  have hheader := run_listHeader hlist (0 + front.length)
  rw [takes_sizeBytes (by cases outer <;> decide)] at hheader
  rw [arrayEnd, StateT.run_bind, offerBody, listBody, hfront]
  change ∃ cursor, (listHeader >>= fun count => if count = 0 then pure none
    else declaredEnd TypeCode.array8 TypeCode.array32).run _ = _
  rw [StateT.run_bind, hheader]
  refine run_declaredEnd_sized (by decide) h ?_ behind
  rw [arrayPlace, Nat.zero_add, length_sizeBytes outer m 1]

theorem declares_listBody {kind : Kind} (hkind : kind ≠ .mechanisms)
    (hfront : Takes descriptor front number) (h : n ≤ largest width) :
    Declares kind (listBody front width n behind) stop ↔ stop = stopAt front.length width n := by
  obtain ⟨cursor, hend⟩ := run_listEnd hfront h behind
  constructor
  · rintro (⟨there, hthere⟩ | ⟨hoffer, -⟩)
    · cases hend.symm.trans hthere
      rfl
    · exact absurd hoffer hkind
  · rintro rfl
    exact .inl ⟨cursor, hend⟩

theorem declares_offerBody (hfront : Takes descriptor front number)
    (hlist : Ranges outer (leastList outer)
      (sizeBytes outer 1 ++ arrayCode width :: (sizeBytes width n ++ behind)) m)
    (h : n ≤ largest width) :
    Declares .mechanisms (offerBody front outer width m n behind) stop ↔
      stop = stopAt front.length outer m ∨ stop = stopAt (arrayPlace front outer) width n := by
  obtain ⟨cursor, hlistEnd⟩ := run_listEnd hfront hlist.le_largest
    (sizeBytes outer 1 ++ arrayCode width :: (sizeBytes width n ++ behind))
  obtain ⟨cursor', harrayEnd⟩ := run_arrayEnd hfront hlist h
  constructor
  · rintro (⟨there, hthere⟩ | ⟨-, there, hthere⟩)
    · cases hlistEnd.symm.trans hthere
      exact .inl rfl
    · cases harrayEnd.symm.trans hthere
      exact .inr rfl
  · rintro (rfl | rfl)
    · exact .inl ⟨cursor, hlistEnd⟩
    · exact .inr ⟨rfl, cursor', harrayEnd⟩

/-- A list is written up to the end of the body. -/
theorem run_listEnd_encode (p : Performative) (hword : p.encode.length < wordCount) :
    ∃ cursor, listEnd.run { rest := p.encode } = .ok (some p.encode.length, cursor) := by
  have hlist : (listBytes p.fieldBytes p.fields.length).length < wordCount := by
    rw [encode_eq, List.length_append] at hword
    omega
  obtain ⟨width, hranges, hbytes⟩ := exists_listBytes hlist
  have hbody := p.encode_eq
  rw [hbytes, ← listBody] at hbody
  rw [hbody, length_listBody]
  exact run_listEnd (takes_descriptor _) hranges.le_largest _

/-- So is an array of mechanisms, the one field of its list. -/
theorem run_arrayEnd_encode {names : List Bytes}
    (hword : (mechanisms names).encode.length < wordCount) :
    ∃ cursor, arrayEnd.run { rest := (mechanisms names).encode } =
      .ok (some (mechanisms names).encode.length, cursor) := by
  have hbody : (mechanisms names).encode =
      [TypeCode.described, TypeCode.smallUlong, Kind.mechanisms.descriptor] ++
        listBytes (symbolArray names) 1 := by
    have hfields : fieldBytes (mechanisms names) = symbolArray names := List.append_nil _
    rw [encode_eq, hfields]
    rfl
  rw [hbody, List.length_append] at hword
  have hroom := length_listBytes_le (symbolArray names) 1
  have hlist : (listBytes (symbolArray names) 1).length < wordCount := by omega
  have hnames : (symbolArray names).length < wordCount := by omega
  obtain ⟨outer, hranges, hbytes⟩ := exists_listBytes hlist
  obtain ⟨width, behind, hlargest, harray⟩ := exists_symbolArray hnames
  rw [harray] at hranges hbytes hbody
  rw [hbytes, ← listBody, ← offerBody] at hbody
  rw [hbody, length_offerBody]
  exact run_arrayEnd (takes_descriptor _) hranges hlargest

theorem Declares.eq_length (h : Declares p.kind p.encode stop)
    (hword : p.encode.length < wordCount) : stop = p.encode.length := by
  rcases h with ⟨there, hend⟩ | ⟨hkind, there, hend⟩
  · obtain ⟨there', hwhole⟩ := run_listEnd_encode p hword
    cases hwhole.symm.trans hend
    rfl
  · cases p with
    | mechanisms names =>
      obtain ⟨there', hwhole⟩ := run_arrayEnd_encode hword
      cases hwhole.symm.trans hend
      rfl
    | _ => cases hkind

end Performative

namespace Frame

open Performative (Declares listBody offerBody arrayPlace)

/-- The body of the frame at the front of `data`. -/
def bodyBytes (data : Bytes) : Bytes :=
  match data with
  | b₀ :: b₁ :: b₂ :: b₃ :: doff :: _ =>
    (data.take (readBE [b₀, b₁, b₂, b₃])).drop (doff.toNat * 4)
  | _ => []

theorem read_of_parse {data : Bytes} {frame : Frame} (h : parse data = .ok frame) :
    ∃ cursor, Performative.read.run { rest := bodyBytes data } = .ok (frame.body, cursor) := by
  unfold parse at h
  split at h
  · next b₀ b₁ b₂ b₃ doff type _ flags rest =>
    rw [bodyBytes]
    dsimp only at h
    generalize Wire.Cursor.mk 0 _ = cursor at h ⊢
    repeat' split at h
    all_goals first | cases h | skip
    rcases hread : Performative.read.run cursor with fault | ⟨body, cursor'⟩
    · rw [hread] at h
      cases h
    · rw [hread] at h
      exact ⟨cursor', by rw [body_of_ofBody h]⟩
  · cases h

/-- `data` with `body` from `start` on. -/
def splice (data : Bytes) (start : Nat) (body : Bytes) : Bytes :=
  data.take start ++ (body ++ data.drop (start + body.length))

/-- The frame at the front of `data` with another body of the same length. -/
def withBody (data body : Bytes) : Bytes :=
  match data with
  | _ :: _ :: _ :: _ :: doff :: _ => splice data (doff.toNat * 4) body
  | _ => data

variable {data body : Bytes} {frame : Frame} {size start : Nat} {doff type flags : UInt8}

theorem length_splice (h : start + body.length ≤ data.length) :
    (splice data start body).length = data.length := by
  simp only [splice, List.length_append, List.length_take, List.length_drop]
  omega

theorem drop_take_splice (h : start ≤ data.length) :
    ((splice data start body).take (start + body.length)).drop start = body := by
  have hstart : (data.take start).length = start := List.length_take_of_le h
  rw [splice, ← List.append_assoc, List.take_left' (by rw [List.length_append, hstart]),
    List.drop_left' hstart]

theorem parseFields_bounds (h : parseFields data size doff type flags = .ok frame) :
    headerSize ≤ doff.toNat * 4 ∧ doff.toNat * 4 ≤ size ∧ size ≤ data.length := by
  unfold parseFields at h
  dsimp only at h
  split at h
  · cases h
  split at h
  · cases h
  split at h
  · cases h
  split at h
  · cases h
  · next hsize _ hoffset =>
    rw [not_or] at hoffset
    have hdoff : dataOffset.toNat ≤ doff.toNat := Nat.not_lt.1 hoffset.1
    exact ⟨Nat.mul_le_mul_right 4 hdoff, Nat.not_lt.1 hoffset.2, Nat.not_lt.1 hsize⟩

theorem parseFields_congr {data' : Bytes} (hlength : data.length = data'.length)
    (hread : Performative.read.run { rest := (data.take size).drop (doff.toNat * 4) } =
      Performative.read.run { rest := (data'.take size).drop (doff.toNat * 4) }) :
    parseFields data size doff type flags = parseFields data' size doff type flags := by
  simp only [parseFields, hlength, hread]

/-- Of the bytes of a body only what is read of them matters. -/
theorem parse_withBody (h : parse data = .ok frame)
    (hlength : body.length = (bodyBytes data).length) :
    bodyBytes (withBody data body) = body ∧
      (Performative.read.run { rest := body } = Performative.read.run { rest := bodyBytes data } →
        parse (withBody data body) = .ok frame) := by
  unfold parse at h
  split at h
  · next b₀ b₁ b₂ b₃ doff type channel flags rest =>
    let whole := b₀ :: b₁ :: b₂ :: b₃ :: doff :: type :: channel :: flags :: rest
    let size := readBE [b₀, b₁, b₂, b₃]
    let start := doff.toNat * 4
    let spliced := splice whole start body
    change parseFields whole size doff type flags = _ at h
    change body.length = ((whole.take size).drop start).length at hlength
    obtain ⟨hheader, hstart, hsize⟩ := parseFields_bounds h
    have hend : start + body.length = size := by
      rw [hlength, List.length_drop, List.length_take_of_le hsize]
      exact Nat.add_sub_cancel' hstart
    have hbody : (spliced.take size).drop start = body := by
      rw [← hend]
      exact drop_take_splice (Nat.le_trans hstart hsize)
    -- the body starts behind the fields of the header, which stay
    obtain ⟨k, hk⟩ := Nat.exists_eq_add_of_le' hheader
    have hfields : spliced = b₀ :: b₁ :: b₂ :: b₃ :: doff :: type :: channel :: flags ::
        (rest.take k ++ (body ++ whole.drop (start + body.length))) := by
      change whole.take (doff.toNat * 4) ++ _ = _
      rw [hk]
      rfl
    have hparse : parse spliced = parseFields spliced size doff type flags := by
      rw [hfields]
      rfl
    have hbytes : bodyBytes spliced = (spliced.take size).drop start := by
      rw [hfields]
      rfl
    refine ⟨hbytes.trans hbody, fun hread => ?_⟩
    rw [← h]
    refine hparse.trans (parseFields_congr (length_splice (hend ▸ hsize)) ?_)
    change Performative.read.run { rest := (spliced.take size).drop start } = _
    rw [hbody]
    exact hread
  · cases h

/-- No field is read behind the end of the list, nor of the array, that declares it. -/
def KeepsExtents (data : Bytes) : Prop :=
  ∀ p cursor, Performative.read.run { rest := bodyBytes data } = .ok (p, cursor) →
    ∀ stop, Declares p.kind (bodyBytes data) stop → cursor.position ≤ stop

theorem keepsExtents_iff {p : Performative} {cursor : Cursor}
    (hread : Performative.read.run { rest := bodyBytes data } = .ok (p, cursor)) :
    KeepsExtents data ↔
      ∀ stop, Declares p.kind (bodyBytes data) stop → cursor.position ≤ stop := by
  constructor
  · exact fun hkeeps => hkeeps p cursor hread
  · intro hkeeps p' cursor' hread'
    cases hread.symm.trans hread'
    exact hkeeps

theorem keepsExtents_withBody {cursor : Cursor} (h : parse data = .ok frame)
    (hread : Performative.read.run { rest := bodyBytes data } = .ok (frame.body, cursor))
    (hlength : body.length = (bodyBytes data).length)
    (hsame : Performative.read.run { rest := body } =
      Performative.read.run { rest := bodyBytes data }) :
    parse (withBody data body) = .ok frame ∧ (KeepsExtents (withBody data body) ↔
      ∀ stop, Declares frame.body.kind body stop → cursor.position ≤ stop) := by
  obtain ⟨hbody, hparse⟩ := parse_withBody h hlength
  have hagain := hsame.trans hread
  rw [← hbody] at hagain
  refine ⟨hparse hsame, ?_⟩
  rw [keepsExtents_iff hagain, hbody]

/-- A frame as it is written keeps the extents that it declares, whatever follows it. -/
theorem keepsExtents_serialize (h : frame.Travels) (tail : Bytes) :
    KeepsExtents (frame.serialize ++ tail) := by
  have hsize : frame.size < wordCount := h.size_lt
  have hword : frame.body.encode.length < wordCount := by
    rw [size_eq] at hsize
    omega
  have hbody : bodyBytes (frame.serialize ++ tail) = frame.body.encode := by
    change ((frame.serialize ++ tail).take (readBE (be32 (headerSize + _)))).drop headerSize = _
    rw [← size_eq, readBE_be32 hsize, size, List.take_left]
    rfl
  have hread := Performative.takes_read h.decided hword 0 []
  rw [List.append_nil, Nat.zero_add, ← hbody] at hread
  rw [keepsExtents_iff hread, hbody]
  exact fun stop hdeclares => Nat.le_of_eq (hdeclares.eq_length hword).symm

/-- Every list and every array of a frame that is read ends within the frame, and every field does.
Whether each field is within what declares it is not checked: of the sizes that end within the
frame any may stand for any other, and the frame is read alike. It keeps its extents exactly if its
sizes reach the end of its fields, and as it is written it does. -/
theorem parse_extents (data : Bytes) {frame : Frame} (h : parse data = .ok frame) :
    ∃ cursor, Performative.read.run { rest := bodyBytes data } = .ok (frame.body, cursor) ∧
      cursor.position ≤ (bodyBytes data).length ∧
      (∀ stop, Declares frame.body.kind (bodyBytes data) stop →
        stop ≤ (bodyBytes data).length) ∧
      (KeepsExtents data ↔ ∀ stop, Declares frame.body.kind (bodyBytes data) stop →
        cursor.position ≤ stop) ∧
      (frame.Travels → frame.serialize <+: data → KeepsExtents data) ∧
      (∀ front number width behind n, Takes descriptor front number →
        bodyBytes data = listBody front width n behind →
        Ranges width (leastList width) behind n →
        ∀ n', Ranges width (leastList width) behind n' →
          let resized := withBody data (listBody front width n' behind)
          parse resized = .ok frame ∧ (frame.body.kind ≠ .mechanisms →
            (KeepsExtents resized ↔ cursor.position ≤ stopAt front.length width n'))) ∧
      ∀ front outer width m behind n, Takes descriptor front Kind.mechanisms.descriptor.toNat →
        bodyBytes data = offerBody front outer width m n behind →
        Ranges outer (leastList outer)
          (sizeBytes outer 1 ++ arrayCode width :: (sizeBytes width n ++ behind)) m →
        Ranges width 0 behind n → ∀ n', Ranges width 0 behind n' →
          let resized := withBody data (offerBody front outer width m n' behind)
          parse resized = .ok frame ∧ (KeepsExtents resized ↔
            cursor.position ≤ stopAt front.length outer m ∧
              cursor.position ≤ stopAt (arrayPlace front outer) width n') := by
  obtain ⟨cursor, hread⟩ := read_of_parse h
  refine ⟨cursor, hread, Performative.position_le hread,
    fun stop hdeclares => hdeclares.le_length hread, keepsExtents_iff hread, ?_, ?_, ?_⟩
  · rintro htravels ⟨tail, rfl⟩
    exact keepsExtents_serialize htravels tail
  · intro front number width behind n hfront hbody hn n' hn'
    have hsame := Performative.run_read_resized hfront hn' hn
    rw [← hbody] at hsame
    have hlength := Performative.length_listBody_resized front width behind n' n
    rw [← hbody] at hlength
    obtain ⟨hparse, hkeeps⟩ := keepsExtents_withBody h hread hlength hsame
    refine ⟨hparse, fun hkind => hkeeps.trans ?_⟩
    simp only [Performative.declares_listBody hkind hfront hn'.le_largest, forall_eq]
  · intro front outer width m behind n hfront hbody hm hn n' hn'
    have hsame := Performative.run_offer_resized hfront hm hn hn'
    have hkind := Performative.kind_of_run_offer hfront hm (hbody ▸ hread)
    have hlength := Performative.length_offerBody_resized front outer width m behind n' n
    rw [← hbody] at hsame hlength
    obtain ⟨hparse, hkeeps⟩ := keepsExtents_withBody h hread hlength hsame.symm
    refine ⟨hparse, hkeeps.trans ?_⟩
    have hlist := Performative.ranges_resized n' hm
    rw [hkind]
    simp only [Performative.declares_offerBody hfront hlist hn'.le_largest, forall_eq_or_imp,
      forall_eq]

/-- A challenge as it is written, and with the least size of its list; an offer, and with an array
that has room for its count only. -/
theorem parse_extents_least_sizes :
    let challenge := [0, 0, 0, 17, 2, 1, 0, 0, 0, 0x53, 0x42, 0xC0, 4, 1, 0xA0, 1, 7]
    let offer := [0, 0, 0, 21, 2, 1, 0, 0, 0, 0x53, 0x40, 0xC0, 8, 1, 0xE0, 5, 1, 0xA3, 2, 65, 66]
    KeepsExtents challenge ∧
      parse (withBody challenge
        (listBody [0, 0x53, 0x42] .bits8 1 [1, 0xA0, 1, 7])) =
          .ok ⟨.challenge [7], false⟩ ∧
      parse (withBody offer
        (offerBody [0, 0x53, 0x40] .bits8 .bits8 8 1 [1, 0xA3, 2, 65, 66])) =
          .ok ⟨.mechanisms [text "AB"], false⟩ := by
  intro challenge offer
  have hchallenge : parse challenge = .ok ⟨.challenge [7], false⟩ := by
    set_option maxRecDepth 4000 in rfl
  have hoffer : parse offer = .ok ⟨.mechanisms [text "AB"], false⟩ := by
    set_option maxRecDepth 4000 in rfl
  obtain ⟨_, -, -, -, -, hwritten, hlist, -⟩ := parse_extents challenge hchallenge
  obtain ⟨_, -, -, -, -, -, -, harray⟩ := parse_extents offer hoffer
  refine ⟨hwritten ⟨trivial, fun h => Bool.noConfusion h, by decide⟩ ⟨[], by decide⟩, ?_, ?_⟩
  · exact (hlist [0, 0x53, 0x42] _ .bits8 [1, 0xA0, 1, 7] 4 (takes_descriptor 0x42) rfl
      ⟨by decide, by decide, by decide⟩ 1 ⟨by decide, by decide, by decide⟩).1
  · exact (harray [0, 0x53, 0x40] .bits8 .bits8 8 [1, 0xA3, 2, 65, 66] 5 (takes_descriptor 0x40)
      rfl ⟨by decide, by decide, by decide⟩ ⟨by decide, by decide, by decide⟩ 1
      ⟨by decide, by decide, by decide⟩).1

/-- A challenge whose list has the least size, and an offer whose array has room for its count
only. -/
theorem not_keepsExtents :
    let challenge := [0, 0, 0, 17, 2, 1, 0, 0, 0, 0x53, 0x42, 0xC0, 1, 1, 0xA0, 1, 7]
    let offer := [0, 0, 0, 21, 2, 1, 0, 0, 0, 0x53, 0x40, 0xC0, 8, 1, 0xE0, 1, 1, 0xA3, 2, 65, 66]
    parse challenge = .ok ⟨.challenge [7], false⟩ ∧ ¬ KeepsExtents challenge ∧
      parse offer = .ok ⟨.mechanisms [text "AB"], false⟩ ∧ ¬ KeepsExtents offer := by
  intro challenge offer
  have hchallenge : Performative.read.run { rest := bodyBytes challenge } =
      .ok (.challenge [7], ⟨9, []⟩) := rfl
  have hlist : Performative.listEnd.run { rest := bodyBytes challenge } =
      .ok (some 6, ⟨5, [1, 0xA0, 1, 7]⟩) := rfl
  have hoffer : Performative.read.run { rest := bodyBytes offer } =
      .ok (.mechanisms [text "AB"], ⟨13, []⟩) := rfl
  have harray : Performative.arrayEnd.run { rest := bodyBytes offer } =
      .ok (some 9, ⟨8, [1, 0xA3, 2, 65, 66]⟩) := rfl
  have hparse : parse challenge = .ok ⟨.challenge [7], false⟩ := by
    set_option maxRecDepth 4000 in rfl
  have hparse' : parse offer = .ok ⟨.mechanisms [text "AB"], false⟩ := by
    set_option maxRecDepth 4000 in rfl
  refine ⟨hparse, fun hkeeps => ?_, hparse', fun hkeeps => ?_⟩
  · exact absurd (hkeeps _ _ hchallenge 6 (.inl ⟨_, hlist⟩)) (by decide)
  · exact absurd (hkeeps _ _ hoffer 9 (.inr ⟨rfl, _, harray⟩)) (by decide)

end Frame

end FramedSasl
