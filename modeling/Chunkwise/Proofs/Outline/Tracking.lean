import Chunkwise.Proofs.Outline.Nesting

/-!
# What closes a block

A tracker is told to open a block or to close all. The open blocks grow deeper from the outside to the inside, whatever
the lines and depths are, so a new block closes just those that are not less deep than it is. Each block is closed once,
by the first call of that kind after it, and the line on which it ends follows from that call.
-/

namespace Chunkwise.Tracker

/-! ## Calls -/

/-- What a tracker is told. -/
inductive Call where
  | opens (kind : BlockKind) (name : Text) (line depth : ℤ)
  | closes (last : ℤ)

/-- The block that a call opens. -/
def Call.block? : Call → Option Block
  | opens kind name line depth => some (newBlock kind name line depth)
  | closes _ => none

/-- The line up to which a call lets the open blocks of a depth reach, when it closes them. -/
def Call.ending? (depth : ℤ) : Call → Option ℤ
  | opens _ _ line d => if d ≤ depth then some (line - 1) else none
  | closes last => some last

def call (t : Tracker) : Call → Tracker
  | .opens kind name line depth => t.openBlock kind name line depth
  | .closes last => t.closeAll last

/-- The tracker after some calls. -/
def after (calls : List Call) : Tracker := calls.foldl call empty

theorem after_concat (calls : List Call) (c : Call) : after (calls ++ [c]) = (after calls).call c := by
  rw [after, List.foldl_concat, after]

/-! ## One call -/

/-- The open blocks grow deeper from the outside to the inside. -/
def Falling (stack : List Block) : Prop := stack.Pairwise fun inner outer => outer.depth < inner.depth

/-- Where the blocks grow less deep, those of a depth or deeper come first. -/
theorem Falling.split {stack : List Block} (falling : Falling stack) (depth : ℤ) :
    (stack.takeWhile fun b => decide (depth ≤ b.depth)) = stack.filter (fun b => decide (depth ≤ b.depth)) ∧
      (stack.dropWhile fun b => decide (depth ≤ b.depth)) = stack.filter (fun b => decide (b.depth < depth)) := by
  induction stack with
  | nil => exact ⟨rfl, rfl⟩
  | cons top rest ih =>
    obtain ⟨above, falling⟩ := List.pairwise_cons.mp falling
    obtain ⟨ending, staying⟩ := ih falling
    by_cases ends : depth ≤ top.depth
    · simp [ends, not_lt.mpr ends, ending, staying]
    · have shallow : ∀ b ∈ rest, b.depth < depth := fun b member => (above b member).trans (not_le.mp ends)
      have kept : (rest.filter fun b => decide (depth ≤ b.depth)) = [] := by simpa using shallow
      have left : (rest.filter fun b => decide (b.depth < depth)) = rest := by simpa using shallow
      simp [ends, not_le.mp ends, kept, left]

/-- What one call does: it closes the open blocks that it gives an ending, the innermost first, leaves the others open
    and may open a block. -/
theorem call_eq {t : Tracker} (falling : Falling t.opened) (c : Call) :
    t.call c = ⟨c.block?.toList ++ t.opened.filter fun b => (c.ending? b.depth).isNone,
      t.closed ++ t.opened.filterMap fun b => (c.ending? b.depth).map b.endAt⟩ := by
  cases c with
  | opens kind name line depth =>
    obtain ⟨ending, staying⟩ := falling.split depth
    have kept : (t.opened.filter fun b => ((Call.opens kind name line depth).ending? b.depth).isNone) =
        t.opened.filter fun b => decide (b.depth < depth) := by
      refine List.filter_congr fun b _ => ?_
      by_cases ends : depth ≤ b.depth <;> simp [Call.ending?, ends, not_lt.mpr, not_le.mp]
    have ended : (t.opened.filterMap fun b => ((Call.opens kind name line depth).ending? b.depth).map b.endAt) =
        (t.opened.filter fun b => decide (depth ≤ b.depth)).map (Block.endAt (line - 1)) := by
      rw [← List.filterMap_eq_map, ← List.filterMap_eq_filter, List.filterMap_filterMap]
      refine List.filterMap_congr fun b _ => ?_
      by_cases ends : depth ≤ b.depth <;> simp [Call.ending?, ends, Option.guard]
    rw [kept, ended, ← ending, ← staying]
    rfl
  | closes last =>
    have ended : (t.opened.filterMap fun b => ((Call.closes last).ending? b.depth).map b.endAt) =
        t.opened.map (Block.endAt last) := by
      rw [← List.filterMap_eq_map]
      rfl
    have kept : (t.opened.filter fun b => ((Call.closes last).ending? b.depth).isNone) = [] := by simp [Call.ending?]
    rw [kept, ended]
    rfl

theorem falling_call {t : Tracker} (falling : Falling t.opened) (c : Call) : Falling (t.call c).opened := by
  rw [call_eq falling]
  cases c with
  | opens kind name line depth =>
    refine List.pairwise_cons.mpr ⟨fun b member => ?_, falling.filter _⟩
    have stays : b.depth < depth := by simpa [Call.ending?] using (List.mem_filter.mp member).2
    exact stays
  | closes last => simp [Falling, Call.block?, Call.ending?]

/-! ## Places of calls -/

/-- The block that is opened by the call at a place. -/
def openedAt (calls : List Call) (i : ℕ) : Option Block := calls[i]?.bind Call.block?

/-- The line up to which the call at a place lets the open blocks of a depth reach, when it closes them. -/
def endingAt (calls : List Call) (depth : ℤ) (j : ℕ) : Option ℤ := calls[j]?.bind (Call.ending? depth)

/-- No call after the one that opens a block closes it. -/
def StaysOpen (calls : List Call) (i : ℕ) (b : Block) : Prop :=
  openedAt calls i = some b ∧ ∀ j, i < j → endingAt calls b.depth j = none

/-- How a block is closed. -/
structure Closing where
  /-- The place of the call that opens the block. -/
  opening : ℕ
  /-- The place of the call that closes it. -/
  closing : ℕ
  /-- The block as it is opened. -/
  block : Block
  /-- The line up to which the block reaches, if it begins no later. -/
  last : ℤ

/-- The closed block. -/
def Closing.ended (c : Closing) : Block := c.block.endAt c.last

/-- A block is closed by the first call that closes blocks of its depth, among those after the call that opens it. -/
structure Closing.Happens (calls : List Call) (c : Closing) : Prop where
  opened : openedAt calls c.opening = some c.block
  later : c.opening < c.closing
  closes : endingAt calls c.block.depth c.closing = some c.last
  first : ∀ j, c.opening < j → j < c.closing → endingAt calls c.block.depth j = none

/-- Blocks are closed in the order of the calls that close them, and by one call from the inside to the outside. -/
def Closing.Before (c d : Closing) : Prop := c.closing < d.closing ∨ c.closing = d.closing ∧ d.opening < c.opening

section Places

variable {calls : List Call} {c : Call} {depth : ℤ} {i j : ℕ} {b : Block}

theorem getElem?_concat : (calls ++ [c])[i]? = if i = calls.length then some c else calls[i]? := by
  rcases lt_trichotomy i calls.length with below | rfl | above
  · rw [List.getElem?_append_left below, if_neg below.ne]
  · rw [List.getElem?_concat_length, if_pos rfl]
  · rw [if_neg above.ne', List.getElem?_eq_none (by simpa using above), List.getElem?_eq_none above.le]

theorem openedAt_concat : openedAt (calls ++ [c]) i = if i = calls.length then c.block? else openedAt calls i := by
  rw [openedAt, getElem?_concat]
  split <;> rfl

theorem endingAt_concat :
    endingAt (calls ++ [c]) depth j = if j = calls.length then c.ending? depth else endingAt calls depth j := by
  rw [endingAt, getElem?_concat]
  split <;> rfl

theorem lt_of_openedAt (opened : openedAt calls i = some b) : i < calls.length := by
  obtain ⟨c, here, -⟩ := Option.bind_eq_some_iff.mp opened
  exact (List.getElem?_eq_some_iff.mp here).1

theorem endingAt_of_length_le (beyond : calls.length ≤ j) : endingAt calls depth j = none := by
  rw [endingAt, List.getElem?_eq_none beyond]
  rfl

theorem lt_of_endingAt {last : ℤ} (closes : endingAt calls depth j = some last) : j < calls.length := by
  by_contra beyond
  rw [endingAt_of_length_le (not_lt.mp beyond)] at closes
  cases closes

/-- One more call leaves those blocks open that it does not close, and may open one. -/
theorem staysOpen_concat :
    StaysOpen (calls ++ [c]) i b ↔
      i = calls.length ∧ c.block? = some b ∨ StaysOpen calls i b ∧ c.ending? b.depth = none := by
  constructor
  · rintro ⟨opened, stays⟩
    rw [openedAt_concat] at opened
    split at opened
    · exact Or.inl ⟨‹_›, opened⟩
    · have now := stays calls.length (lt_of_openedAt opened)
      rw [endingAt_concat, if_pos rfl] at now
      refine Or.inr ⟨⟨opened, fun j after => ?_⟩, now⟩
      have later := stays j after
      rw [endingAt_concat] at later
      split at later
      · exact endingAt_of_length_le (Eq.ge ‹_›)
      · exact later
  · rintro (⟨rfl, opened⟩ | ⟨⟨opened, stays⟩, now⟩)
    · refine ⟨by rw [openedAt_concat, if_pos rfl, opened], fun j after => ?_⟩
      rw [endingAt_concat, if_neg after.ne']
      exact endingAt_of_length_le after.le
    · refine ⟨by rw [openedAt_concat, if_neg (lt_of_openedAt opened).ne, opened], fun j after => ?_⟩
      rw [endingAt_concat]
      split
      · exact now
      · exact stays j after

/-- One more call closes open blocks and leaves alone what is closed. -/
theorem happens_concat {d : Closing} :
    d.Happens (calls ++ [c]) ↔
      d.Happens calls ∨ StaysOpen calls d.opening d.block ∧ d.closing = calls.length ∧
        c.ending? d.block.depth = some d.last := by
  constructor
  · rintro ⟨opened, later, closes, first⟩
    have inside := lt_of_endingAt closes
    rw [List.length_append, List.length_singleton] at inside
    rw [openedAt_concat, if_neg (by omega)] at opened
    have earlier (j : ℕ) (after : d.opening < j) (before : j < d.closing) :
        endingAt calls d.block.depth j = none := by
      have unclosed := first j after before
      rwa [endingAt_concat, if_neg (by omega)] at unclosed
    rw [endingAt_concat] at closes
    split at closes
    · rename_i now
      refine Or.inr ⟨⟨opened, fun j after => ?_⟩, now, closes⟩
      rcases lt_or_ge j d.closing with before | beyond
      · exact earlier j after before
      · exact endingAt_of_length_le (now ▸ beyond)
    · exact Or.inl ⟨opened, later, closes, earlier⟩
  · rintro (⟨opened, later, closes, first⟩ | ⟨⟨opened, stays⟩, now, closes⟩)
    · have inside := lt_of_endingAt closes
      refine ⟨?_, later, ?_, fun j after before => ?_⟩
      · rw [openedAt_concat, if_neg (by omega), opened]
      · rw [endingAt_concat, if_neg (by omega), closes]
      · rw [endingAt_concat, if_neg (by omega), first j after before]
    · have inside := lt_of_openedAt opened
      refine ⟨?_, by omega, ?_, fun j after before => ?_⟩
      · rw [openedAt_concat, if_neg (by omega), opened]
      · rw [endingAt_concat, if_pos now, closes]
      · rw [endingAt_concat, if_neg (by omega), stays j after]

/-- A block is closed at most once. -/
theorem Closing.Happens.unique {d e : Closing} (one : d.Happens calls) (other : e.Happens calls)
    (same : d.opening = e.opening) : d = e := by
  obtain ⟨opening, closing, block, last⟩ := d
  obtain ⟨opening', closing', block', last'⟩ := e
  obtain rfl : opening = opening' := same
  obtain rfl : block = block' := Option.some.inj (one.opened.symm.trans other.opened)
  rcases lt_trichotomy closing closing' with before | rfl | after
  · cases (other.first closing one.later before).symm.trans one.closes
  · obtain rfl : last = last' := Option.some.inj (one.closes.symm.trans other.closes)
    rfl
  · cases (one.first closing' other.later after).symm.trans other.closes

/-- A block that does not stay open is closed, and only once. -/
theorem existsUnique_happens (opened : openedAt calls i = some b) (ends : ¬ StaysOpen calls i b) :
    ∃! d : Closing, d.Happens calls ∧ d.opening = i := by
  have some : ∃ j, i < j ∧ endingAt calls b.depth j ≠ none := by
    by_contra none
    push Not at none
    exact ends ⟨opened, none⟩
  obtain ⟨later, closes⟩ := Nat.find_spec some
  obtain ⟨last, closes⟩ := Option.ne_none_iff_exists'.mp closes
  have happens : Closing.Happens calls ⟨i, Nat.find some, b, last⟩ := by
    refine ⟨opened, later, closes, fun j after before => ?_⟩
    by_contra unclosed
    exact Nat.find_min some before ⟨after, unclosed⟩
  exact ⟨_, ⟨happens, rfl⟩, fun d other => other.1.unique happens other.2⟩

end Places

/-! ## Many calls -/

/-- What a tracker holds after some calls: the blocks that no call has closed, the innermost first, and the closed blocks
    in the order of their closing. -/
structure Holds (calls : List Call) (t : Tracker) : Prop where
  falling : Falling t.opened
  opened : ∃ unclosed : List (ℕ × Block), (∀ p, p ∈ unclosed ↔ StaysOpen calls p.1 p.2) ∧
    unclosed.Pairwise (fun p q => q.1 < p.1) ∧ t.opened = unclosed.map (·.2)
  closed : ∃ closings : List Closing, (∀ d, d ∈ closings ↔ d.Happens calls) ∧
    closings.Pairwise Closing.Before ∧ t.closed = closings.map Closing.ended

theorem holds_empty : Holds [] empty where
  falling := .nil
  opened := ⟨[], fun p => by simp [StaysOpen, openedAt], .nil, rfl⟩
  closed := by
    refine ⟨[], fun d => ⟨by simp, fun happens => ?_⟩, .nil, rfl⟩
    cases happens.opened

theorem Holds.call {calls : List Call} {t : Tracker} (holds : Holds calls t) (c : Call) :
    Holds (calls ++ [c]) (t.call c) := by
  obtain ⟨falling, ⟨unclosed, stays, inward, opened⟩, ⟨closings, happened, order, closed⟩⟩ := holds
  have does := call_eq falling c
  refine ⟨falling_call falling c, ?opened, ?closed⟩
  case opened =>
    refine ⟨c.block?.toList.map (calls.length, ·) ++ unclosed.filter fun p => (c.ending? p.2.depth).isNone, ?_, ?_, ?_⟩
    · rintro ⟨i, b⟩
      rw [staysOpen_concat, List.mem_append, List.mem_filter, stays, Option.isNone_iff_eq_none]
      refine or_congr ?_ Iff.rfl
      simp [eq_comm, and_comm]
    · refine List.pairwise_append.mpr ⟨?_, inward.filter _, ?_⟩
      · cases c.block? <;> simp
      · intro p new q old
        obtain ⟨b, -, rfl⟩ := List.mem_map.mp new
        exact lt_of_openedAt ((stays q).mp (List.mem_filter.mp old).1).1
    · have unmoved : (c.block?.toList.map (calls.length, ·)).map (·.2) = c.block?.toList := by cases c.block? <;> rfl
      rw [does, opened, List.map_append, unmoved, List.filter_map]
      rfl
  case closed =>
    refine ⟨closings ++ unclosed.filterMap fun p => (c.ending? p.2.depth).map (Closing.mk p.1 calls.length p.2), ?_, ?_, ?_⟩
    · intro d
      rw [happens_concat, List.mem_append, happened]
      refine or_congr Iff.rfl ?_
      simp only [List.mem_filterMap, Option.map_eq_some_iff]
      constructor
      · rintro ⟨p, member, last, closes, rfl⟩
        exact ⟨(stays p).mp member, rfl, closes⟩
      · rintro ⟨staying, now, closes⟩
        exact ⟨(d.opening, d.block), (stays _).mpr staying, d.last, closes, by rw [← now]⟩
    · refine List.pairwise_append.mpr ⟨order, ?_, ?_⟩
      · refine inward.filterMap _ ?_
        intro p q within c' first d' second
        obtain ⟨_, -, rfl⟩ := Option.map_eq_some_iff.mp first
        obtain ⟨_, -, rfl⟩ := Option.map_eq_some_iff.mp second
        exact Or.inr ⟨rfl, within⟩
      · intro c' old d' new
        obtain ⟨p, -, made⟩ := List.mem_filterMap.mp new
        obtain ⟨_, -, rfl⟩ := Option.map_eq_some_iff.mp made
        exact Or.inl (lt_of_endingAt ((happened c').mp old).closes)
    · rw [does, opened, closed, List.map_append, List.map_filterMap, List.filterMap_map]
      simp only [Option.map_map]
      rfl

/-- Whatever a tracker is told, a block is closed by the first call after its own that closes blocks of its depth. -/
theorem holds_after (calls : List Call) : Holds calls (after calls) := by
  induction calls using List.reverseRecOn with
  | nil => exact holds_empty
  | append_singleton calls c ih =>
    rw [after_concat]
    exact ih.call c

/-! ## Listing the blocks -/

/-- The list of the closed blocks `bs` that is returned after some calls. -/
structure Lists (calls : List Call) (bs listed : List Block) : Prop where
  /-- All blocks are listed that were opened. -/
  all : (listed.map Block.opening).Perm (calls.filterMap Call.block?)
  perm : listed.Perm bs
  sorted : listed.Pairwise fun a b => a.startLine < b.startLine ∨ a.startLine = b.startLine ∧ a.depth ≤ b.depth
  /-- Blocks with the same first line and the same depth keep the order in which they were closed. -/
  stable : ∀ line depth, (listed.filter fun b => decide (b.startLine = line ∧ b.depth = depth)) =
    bs.filter fun b => decide (b.startLine = line ∧ b.depth = depth)

theorem perm_after (calls : List Call) :
    (((after calls).opened ++ (after calls).closed).map Block.opening).Perm (calls.filterMap Call.block?) := by
  induction calls using List.reverseRecOn with
  | nil => rfl
  | append_singleton calls c ih =>
    rw [after_concat, List.filterMap_append]
    cases c with
    | opens kind name line depth =>
      exact (perm_openBlock ..).trans ((ih.cons _).trans (List.perm_append_singleton ..).symm)
    | closes last =>
      rw [show [Call.closes last].filterMap Call.block? = [] from rfl, List.append_nil]
      exact (perm_closeAll ..).trans ih

theorem filter_sorted (t : Tracker) (line depth : ℤ) :
    (t.sorted.filter fun b => decide (b.startLine = line ∧ b.depth = depth)) =
      t.closed.filter fun b => decide (b.startLine = line ∧ b.depth = depth) := by
  let key (b : Block) : Bool := decide (b.startLine = line ∧ b.depth = depth)
  have tied : (t.closed.filter key).Pairwise fun a b => blockOrder a b := by
    refine List.pairwise_of_forall_mem_list fun a inA b inB => blockOrder_iff.mpr ?_
    obtain ⟨lineA, depthA⟩ := of_decide_eq_true (List.mem_filter.mp inA).2
    obtain ⟨lineB, depthB⟩ := of_decide_eq_true (List.mem_filter.mp inB).2
    omega
  have kept := (List.sublist_mergeSort blockOrder_trans blockOrder_total tied List.filter_sublist).filter key
  rw [List.filter_filter, List.filter_congr fun b _ => Bool.and_self (key b)] at kept
  exact (kept.eq_of_length ((List.mergeSort_perm ..).symm.filter key).length_eq).symm

theorem lists_closeAll (calls : List Call) (last : ℤ) :
    Lists calls ((after calls).closeAll last).closed ((after calls).closeAll last).sorted where
  all := ((List.mergeSort_perm ..).map _).trans ((perm_closeAll ..).trans (perm_after calls))
  perm := List.mergeSort_perm ..
  sorted := pairwise_sorted _
  stable := filter_sorted _

/-! ## How closed blocks lie -/

/-- A block begins below the blocks before it, and all is closed on a line that is not above them. -/
def Call.RisesTo : Call → Call → Prop
  | opens _ _ line _, opens _ _ later _ => line < later
  | opens _ _ line _, closes last => line ≤ last
  | closes _, _ => True

/-- The calls go down the lines of a file. -/
def Rising (calls : List Call) : Prop := calls.Pairwise Call.RisesTo

/-- A block is closed together with all others before a later one is opened, and yet reaches the later one's lines: what
    closes all may name any line below the blocks that it closes. -/
structure Closing.Overruns (calls : List Call) (c d : Closing) : Prop where
  earlier : c.closing < d.opening
  closesAll : calls[c.closing]? = some (.closes c.last)
  reaches : d.block.startLine ≤ c.last

section Nesting

variable {calls : List Call} {depth last : ℤ} {i j : ℕ} {b : Block} {c d : Closing}

theorem Rising.risesTo (rising : Rising calls) {x y : Call} (here : calls[i]? = some x) (there : calls[j]? = some y)
    (before : i < j) : x.RisesTo y := by
  obtain ⟨inside, rfl⟩ := List.getElem?_eq_some_iff.mp here
  obtain ⟨inside', rfl⟩ := List.getElem?_eq_some_iff.mp there
  exact List.pairwise_iff_getElem.mp rising i j inside inside' before

theorem exists_of_openedAt (opened : openedAt calls i = some b) :
    ∃ kind name, calls[i]? = some (.opens kind name b.startLine b.depth) := by
  obtain ⟨x, here, opens⟩ := Option.bind_eq_some_iff.mp opened
  cases x with
  | opens kind name line depth =>
    obtain rfl := Option.some.inj opens
    exact ⟨kind, name, here⟩
  | closes last => cases opens

theorem endingAt_cases (closes : endingAt calls depth j = some last) :
    (∃ kind name d, calls[j]? = some (.opens kind name (last + 1) d) ∧ d ≤ depth) ∨ calls[j]? = some (.closes last) := by
  obtain ⟨x, here, ends⟩ := Option.bind_eq_some_iff.mp closes
  cases x with
  | opens kind name line d =>
    simp only [Call.ending?, Option.ite_none_right_eq_some, Option.some.injEq] at ends
    obtain ⟨shallow, rfl⟩ := ends
    exact Or.inl ⟨kind, name, d, by rw [here, sub_add_cancel], shallow⟩
  | closes last' =>
    obtain rfl := Option.some.inj ends
    exact Or.inr here

/-- What closes blocks of a depth closes deeper ones on the same line. -/
theorem endingAt_mono {deeper : ℤ} (le : depth ≤ deeper) (closes : endingAt calls depth j = some last) :
    endingAt calls deeper j = some last := by
  rcases endingAt_cases closes with ⟨kind, name, d, here, shallow⟩ | here
  · rw [endingAt, here, Option.bind_some, Call.ending?, if_pos (shallow.trans le), add_sub_cancel_right]
  · rw [endingAt, here]
    rfl

/-- What closes a block does so on no line above an earlier block. -/
theorem Rising.le_last (rising : Rising calls) {kind : BlockKind} {name : Text} {line d : ℤ}
    (here : calls[i]? = some (.opens kind name line d)) (closes : endingAt calls depth j = some last) (before : i < j) :
    line ≤ last := by
  rcases endingAt_cases closes with ⟨_, _, _, there, -⟩ | there
  · exact Int.lt_add_one_iff.mp (rising.risesTo here there before)
  · exact rising.risesTo here there before

theorem Rising.endLine_ended (rising : Rising calls) (happens : c.Happens calls) : c.ended.endLine = c.last := by
  obtain ⟨_, _, here⟩ := exists_of_openedAt happens.opened
  exact Block.endLine_endAt (rising.le_last here happens.closes happens.later)

/-- A block that is closed before a later one is opened ends above it, unless it overruns it. -/
theorem Rising.last_lt (rising : Rising calls) (outer : c.Happens calls) (inner : d.Happens calls)
    (ends : c.closing ≤ d.opening) (apart : ¬ c.Overruns calls d) : c.last < d.block.startLine := by
  obtain ⟨_, _, there⟩ := exists_of_openedAt inner.opened
  rcases endingAt_cases outer.closes with ⟨_, _, _, here, -⟩ | here
  · rcases ends.lt_or_eq with before | same
    · have rises := rising.risesTo here there before
      exact (lt_add_one c.last).trans rises
    · rw [same, there, Option.some.injEq, Call.opens.injEq] at here
      omega
  · by_contra reaches
    refine apart ⟨lt_of_le_of_ne ends ?_, here, not_lt.mp reaches⟩
    rintro same
    rw [same, there] at here
    cases here

/-- A block that is opened while another one is open is deeper and ends no later. -/
theorem Rising.inside (rising : Rising calls) (outer : c.Happens calls) (inner : d.Happens calls)
    (before : c.opening < d.opening) (within : d.opening < c.closing) :
    c.block.depth < d.block.depth ∧ d.last ≤ c.last := by
  obtain ⟨_, _, there⟩ := exists_of_openedAt inner.opened
  have deeper : c.block.depth < d.block.depth := by
    by_contra shallow
    have unclosed := outer.first d.opening before within
    rw [endingAt, there, Option.bind_some, Call.ending?, if_pos (not_lt.mp shallow)] at unclosed
    cases unclosed
  refine ⟨deeper, ?_⟩
  have both : endingAt calls d.block.depth c.closing = some c.last := endingAt_mono deeper.le outer.closes
  rcases lt_trichotomy d.closing c.closing with earlier | same | later
  · rcases endingAt_cases inner.closes with ⟨_, _, _, here, -⟩ | here
    · have reaches := rising.le_last here both earlier
      omega
    · -- What closes all would have closed the outer block too.
      have unclosed := outer.first d.closing (before.trans inner.later) earlier
      rw [endingAt, here] at unclosed
      cases unclosed
  · have closes := inner.closes
    rw [same, both] at closes
    exact (Option.some.inj closes).ge
  · rw [inner.first c.closing within later] at both
    cases both

/-- Of two closed blocks the first one ends above the other, or holds it and is less deep. -/
theorem Rising.leads (rising : Rising calls) (outer : c.Happens calls) (inner : d.Happens calls)
    (before : c.opening < d.opening) (apart : ¬ c.Overruns calls d) : c.ended.Leads d.ended := by
  obtain ⟨_, _, here⟩ := exists_of_openedAt outer.opened
  obtain ⟨_, _, there⟩ := exists_of_openedAt inner.opened
  refine ⟨rising.risesTo here there before, ?_⟩
  rw [rising.endLine_ended outer, rising.endLine_ended inner]
  rcases le_or_gt c.closing d.opening with ends | within
  · exact Or.inl (rising.last_lt outer inner ends apart)
  · obtain ⟨deeper, reaches⟩ := rising.inside outer inner before within
    exact Or.inr ⟨reaches, deeper⟩

end Nesting

/-- Whatever a tracker is told, the open blocks grow deeper from the outside to the inside, and each block is closed
    once, by the first call after its own that opens a block at its depth or a smaller one or closes all; it ends on the
    line before the new block or on the line given, but not before it begins. Closing all lists every block that was
    opened, by first lines, then by depths, then in the order of closing. When the calls go down the lines, two blocks
    lie apart or the later one lies inside the other and is deeper, unless the first one overruns the other. -/
theorem tracking_exact (calls : List Call) :
    Holds calls (after calls) ∧
    (∀ i b, openedAt calls i = some b → ¬ StaysOpen calls i b → ∃! c : Closing, c.Happens calls ∧ c.opening = i) ∧
    (∀ last, Lists calls ((after calls).closeAll last).closed ((after calls).closeAll last).sorted) ∧
    (Rising calls → ∀ c d : Closing, c.Happens calls → d.Happens calls → c.opening < d.opening →
      ¬ c.Overruns calls d → c.ended.Leads d.ended) :=
  ⟨holds_after calls, fun _ _ => existsUnique_happens, lists_closeAll calls,
    fun rising _ _ outer inner before apart => rising.leads outer inner before apart⟩

/-- Two blocks that are closed together, and a third one that is opened by the same tracker later on. -/
def reusedCalls : List Call := [.opens .classBlock ['a'] 0 0, .opens .functionBlock ['b'] 2 4, .closes 5,
  .opens .functionBlock ['c'] 7 2, .closes 9]

theorem tracking_exact_reused :
    Rising reusedCalls ∧ ∃ a b c : Block, a.name = ['a'] ∧ b.name = ['b'] ∧ c.name = ['c'] ∧ a.Leads b ∧ a.Leads c := by
  have rising : Rising reusedCalls := by simp [Rising, reusedCalls, Call.RisesTo]
  have first : Closing.Happens reusedCalls ⟨0, 2, newBlock .classBlock ['a'] 0 0, 5⟩ := by
    refine ⟨rfl, by decide, rfl, fun j (after : 0 < j) (before : j < 2) => ?_⟩
    obtain rfl : j = 1 := by omega
    rfl
  have second : Closing.Happens reusedCalls ⟨1, 2, newBlock .functionBlock ['b'] 2 4, 5⟩ :=
    ⟨rfl, by decide, rfl, fun j (after : 1 < j) (before : j < 2) => by omega⟩
  have third : Closing.Happens reusedCalls ⟨3, 4, newBlock .functionBlock ['c'] 7 2, 9⟩ :=
    ⟨rfl, by decide, rfl, fun j (after : 3 < j) (before : j < 4) => by omega⟩
  obtain ⟨-, -, -, leads⟩ := tracking_exact reusedCalls
  refine ⟨rising, _, _, _, rfl, rfl, rfl, leads rising _ _ first second (by decide) ?_,
    leads rising _ _ first third (by decide) ?_⟩
  · rintro ⟨earlier, -, -⟩
    exact absurd earlier (by decide)
  · rintro ⟨-, -, reaches⟩
    exact absurd reaches (by decide)

/-- A tracker that is used again above the line on which it has closed all. -/
def reopenedCalls : List Call :=
  [.opens .functionBlock ['a'] 1 0, .closes 10, .opens .functionBlock ['b'] 2 0, .closes 20]

/-- The calls go down the lines, and yet two blocks of one depth overlap and neither lies inside the other: the proviso
    about overrunning blocks is needed. -/
theorem overlap_of_reopened :
    Rising reopenedCalls ∧ ∃ c d : Closing, c.Happens reopenedCalls ∧ d.Happens reopenedCalls ∧
      (after reopenedCalls).closed = [c.ended, d.ended] ∧ c.Overruns reopenedCalls d ∧ ¬ c.ended.Compatible d.ended ∧
      (c.ended.startLine, c.ended.endLine) = (1, 10) ∧ (d.ended.startLine, d.ended.endLine) = (2, 20) := by
  refine ⟨by simp [Rising, reopenedCalls, Call.RisesTo], ⟨0, 1, newBlock .functionBlock ['a'] 1 0, 10⟩,
    ⟨2, 3, newBlock .functionBlock ['b'] 2 0, 20⟩, ?first, ?second, rfl, ⟨by decide, rfl, by decide⟩, ?apart, rfl, rfl⟩
  case first => exact ⟨rfl, by decide, rfl, fun j (after : 0 < j) (before : j < 1) => by omega⟩
  case second => exact ⟨rfl, by decide, rfl, fun j (after : 2 < j) (before : j < 3) => by omega⟩
  case apart =>
    rintro (⟨-, above | ⟨-, deeper⟩⟩ | ⟨rises, -⟩)
    · exact absurd above (by decide)
    · exact absurd deeper (by decide)
    · exact absurd rises (by decide)

end Chunkwise.Tracker
