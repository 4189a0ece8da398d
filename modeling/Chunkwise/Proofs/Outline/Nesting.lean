import Chunkwise.Proofs.Outline.Blocks

/-!
# How blocks nest

The open blocks form a stack: one that lies further in begins later and deeper. What the tracker closes has then ended
before everything that is still to come, and lies inside the open blocks that began before it. So any two blocks of a
file are apart or one lies inside the other, and there is one block for each declaration, in the order of the lines.
-/

namespace Chunkwise

/-! ## Two blocks -/

namespace Block

/-- A block that begins before another one, and at a smaller depth. -/
def Begins (outer inner : Block) : Prop := outer.startLine < inner.startLine ∧ outer.depth < inner.depth

/-- Of two blocks the one that begins first: it ends before the other one begins, or holds it and is less deep. -/
def Leads (a b : Block) : Prop :=
  a.startLine < b.startLine ∧ (a.endLine < b.startLine ∨ b.endLine ≤ a.endLine ∧ a.depth < b.depth)

/-- Two blocks without a common line, or one of which lies inside the other, in either order. -/
def Compatible (a b : Block) : Prop := a.Leads b ∨ b.Leads a

theorem Compatible.symm {a b : Block} (compatible : a.Compatible b) : b.Compatible a := Or.symm compatible

/-- The block as it is opened: all but where it ends. -/
def opening (b : Block) : Block := { b with endLine := b.startLine }

theorem opening_comp_endAt (last : ℤ) : opening ∘ endAt last = opening := rfl

theorem endLine_endAt {b : Block} {last : ℤ} (begun : b.startLine ≤ last) : (b.endAt last).endLine = last :=
  max_eq_right begun

/-- Blocks that end together: the one further in lies inside the other. -/
theorem Begins.leads {outer inner : Block} {last : ℤ} (begins : outer.Begins inner) (begun : inner.startLine ≤ last) :
    (outer.endAt last).Leads (inner.endAt last) := by
  refine ⟨begins.1, Or.inr ⟨?_, begins.2⟩⟩
  rw [endLine_endAt begun, endLine_endAt (begins.1.le.trans begun)]

end Block

/-! ## The tracker -/

namespace Tracker

/-- What has been tracked up to line `last`. -/
structure Nested (last : ℤ) (t : Tracker) : Prop where
  stack : t.opened.Pairwise fun inner outer => outer.Begins inner
  begun : ∀ b ∈ t.opened, b.startLine ≤ last
  ended : ∀ c ∈ t.closed, c.startLine ≤ c.endLine ∧ c.endLine ≤ last
  compatible : t.closed.Pairwise Block.Compatible
  settled : ∀ c ∈ t.closed, ∀ b ∈ t.opened, c.endLine < b.startLine ∨ b.Begins c

theorem nested_empty (last : ℤ) : empty.Nested last := by
  constructor <;> simp [empty]

theorem Nested.mono {t : Tracker} {last later : ℤ} (nested : t.Nested last) (le : last ≤ later) : t.Nested later where
  stack := nested.stack
  begun b member := (nested.begun b member).trans le
  ended c member := ⟨(nested.ended c member).1, (nested.ended c member).2.trans le⟩
  compatible := nested.compatible
  settled := nested.settled

/-- Closing the inner part of the stack on the line that has been reached. -/
theorem Nested.close {t : Tracker} {last : ℤ} {ending staying : List Block} (nested : t.Nested last)
    (split : t.opened = ending ++ staying) :
    Nested last ⟨staying, t.closed ++ ending.map (Block.endAt last)⟩ := by
  obtain ⟨stack, begun, ended, compatible, settled⟩ := nested
  rw [split] at stack begun settled
  obtain ⟨inEnding, inStaying, across⟩ := List.pairwise_append.mp stack
  have begunEnding (b : Block) (member : b ∈ ending) : b.startLine ≤ last := begun b (List.mem_append_left _ member)
  refine ⟨inStaying, fun b member => begun b (List.mem_append_right _ member), ?ended, ?compatible, ?settled⟩
  case ended =>
    refine List.forall_mem_append.mpr ⟨ended, List.forall_mem_map.mpr fun b member => ?_⟩
    rw [Block.endLine_endAt (begunEnding b member)]
    exact ⟨begunEnding b member, le_refl last⟩
  case compatible =>
    refine List.pairwise_append.mpr ⟨compatible, ?_, ?_⟩
    · rw [List.pairwise_map]
      exact inEnding.imp_of_mem fun innerIn _ begins => Or.inr (begins.leads (begunEnding _ innerIn))
    · intro c closed
      refine List.forall_mem_map.mpr fun b member => ?_
      rcases settled c closed b (List.mem_append_left _ member) with before | begins
      · exact Or.inl ⟨(ended c closed).1.trans_lt before, Or.inl before⟩
      · refine Or.inr ⟨begins.1, Or.inr ⟨?_, begins.2⟩⟩
        rw [Block.endLine_endAt (begunEnding b member)]
        exact (ended c closed).2
  case settled =>
    intro c closed b member
    rcases List.mem_append.mp closed with before | now
    · exact settled c before b (List.mem_append_right _ member)
    · obtain ⟨inner, inEnding, rfl⟩ := List.mem_map.mp now
      exact Or.inr (across inner inEnding b member)

/-- What stays open when a block opens is less deep: the stack of depths falls from the inside to the outside. -/
theorem depth_lt_of_mem_dropWhile {stack : List Block} {depth : ℤ}
    (falling : stack.Pairwise fun inner outer => outer.Begins inner) :
    ∀ b ∈ stack.dropWhile fun b => decide (depth ≤ b.depth), b.depth < depth := by
  induction stack with
  | nil => simp
  | cons top rest ih =>
    obtain ⟨above, falling⟩ := List.pairwise_cons.mp falling
    by_cases ends : depth ≤ top.depth
    · simpa [ends] using ih falling
    · have stays : top.depth < depth := not_le.mp ends
      rw [List.dropWhile_cons_of_neg (by simpa using stays)]
      exact List.forall_mem_cons.mpr ⟨stays, fun b member => (above b member).2.trans stays⟩

/-- Opening a block after the last line that has been reached. -/
theorem Nested.track {t : Tracker} {d : Declaration} (nested : t.Nested (d.line - 1)) :
    (Declaration.track t d).Nested d.line := by
  have closing := nested.close (List.takeWhile_append_dropWhile (p := fun b => decide ((d.depth : ℤ) ≤ b.depth))).symm
  have shallow : ∀ b ∈ t.opened.dropWhile fun b => decide ((d.depth : ℤ) ≤ b.depth), b.depth < d.depth :=
    depth_lt_of_mem_dropWhile nested.stack
  obtain ⟨stack, begun, ended, compatible, settled⟩ := closing
  refine ⟨?stack, ?begun, ?ended, compatible, ?settled⟩
  case stack =>
    refine List.pairwise_cons.mpr ⟨fun b member => ⟨?_, shallow b member⟩, stack⟩
    exact Int.lt_of_le_sub_one (begun b member)
  case begun =>
    refine List.forall_mem_cons.mpr ⟨le_refl _, fun b member => ?_⟩
    exact (Int.lt_of_le_sub_one (begun b member)).le
  case ended =>
    intro c closed
    exact ⟨(ended c closed).1, (Int.lt_of_le_sub_one (ended c closed).2).le⟩
  case settled =>
    intro c closed
    exact List.forall_mem_cons.mpr ⟨Or.inl (Int.lt_of_le_sub_one (ended c closed).2), settled c closed⟩

theorem Nested.foldl_track {ds : List Declaration} {t : Tracker} {before last : ℤ} (nested : t.Nested before)
    (rising : ds.Pairwise fun a b => a.line < b.line) (after : ∀ d ∈ ds, before < d.line)
    (reach : before ≤ last) (upTo : ∀ d ∈ ds, (d.line : ℤ) ≤ last) : (ds.foldl Declaration.track t).Nested last := by
  induction ds generalizing t before with
  | nil => exact nested.mono reach
  | cons d rest ih =>
    obtain ⟨above, rising⟩ := List.pairwise_cons.mp rising
    obtain ⟨here, -⟩ := List.forall_mem_cons.mp after
    obtain ⟨hereUpTo, upTo⟩ := List.forall_mem_cons.mp upTo
    have next := (nested.mono (Int.le_sub_one_of_lt here)).track
    exact ih next rising (fun e member => by exact_mod_cast above e member) hereUpTo upTo

end Tracker

/-! ## Blocks and declarations -/

/-- The block that a declaration opens. -/
def Declaration.block (d : Declaration) : Block := Tracker.newBlock d.what.kind d.what.name d.line d.depth

namespace Tracker

theorem perm_openBlock (t : Tracker) (kind : BlockKind) (name : Text) (line depth : ℤ) :
    (((t.openBlock kind name line depth).opened ++ (t.openBlock kind name line depth).closed).map Block.opening).Perm
      (newBlock kind name line depth :: (t.opened ++ t.closed).map Block.opening) := by
  let ends (b : Block) : Bool := decide (depth ≤ b.depth)
  have apart : t.opened = t.opened.takeWhile ends ++ t.opened.dropWhile ends := List.takeWhile_append_dropWhile.symm
  rw [show (t.openBlock kind name line depth).opened ++ (t.openBlock kind name line depth).closed =
      newBlock kind name line depth ::
        (t.opened.dropWhile ends ++ (t.closed ++ (t.opened.takeWhile ends).map (Block.endAt (line - 1)))) from rfl]
  nth_rewrite 3 [apart]
  simp only [List.map_cons, List.map_append, List.map_map, Block.opening_comp_endAt, List.append_assoc]
  refine List.Perm.cons _ ?_
  rw [← List.append_assoc]
  exact List.perm_append_comm

theorem perm_closeAll (t : Tracker) (last : ℤ) :
    ((t.closeAll last).closed.map Block.opening).Perm ((t.opened ++ t.closed).map Block.opening) := by
  simp only [closeAll, List.map_append, List.map_map, Block.opening_comp_endAt]
  exact List.perm_append_comm

/-- The tracker neither loses nor invents a block. -/
theorem perm_foldl_track (ds : List Declaration) (t : Tracker) :
    (((ds.foldl Declaration.track t).opened ++ (ds.foldl Declaration.track t).closed).map Block.opening).Perm
      (ds.map Declaration.block ++ (t.opened ++ t.closed).map Block.opening) := by
  induction ds generalizing t with
  | nil => rfl
  | cons d rest ih =>
    refine (ih (Declaration.track t d)).trans ?_
    exact ((perm_openBlock ..).append_left _).trans List.perm_middle

end Tracker

section Blocks

variable {ds : List Declaration} {last : ℤ}

/-- Declarations on different lines head one block each, in their own order. -/
theorem map_opening_blocksOf (rising : ds.Pairwise fun a b => a.line < b.line) :
    (blocksOf ds last).map Block.opening = ds.map Declaration.block := by
  have all : ((blocksOf ds last).map Block.opening).Perm (ds.map Declaration.block) := by
    have tracked := Tracker.perm_foldl_track ds Tracker.empty
    simp only [Tracker.empty, List.append_nil, List.map_nil] at tracked
    exact ((List.mergeSort_perm ..).map _).trans ((Tracker.perm_closeAll ..).trans tracked)
  have distinct : ((ds.map Declaration.block).map Block.startLine).Nodup := by
    rw [List.map_map, List.Nodup, List.pairwise_map]
    exact rising.imp fun {a b} before same => before.ne (Int.ofNat.inj same)
  have tied : ∀ a b, a ∈ (blocksOf ds last).map Block.opening → b ∈ ds.map Declaration.block →
      a.startLine ≤ b.startLine → b.startLine ≤ a.startLine → a = b := by
    intro a b inA inB before after
    exact List.inj_on_of_nodup_map distinct (all.mem_iff.mp inA) inB (le_antisymm before after)
  refine List.Perm.eq_of_pairwise tied ?_ ?_ all
  · rw [List.pairwise_map]
    exact pairwise_blocksOf ds last
  · rw [List.pairwise_map]
    exact rising.imp fun before => by
      simp only [Declaration.block, Tracker.newBlock]
      omega

theorem nested_closeAll (rising : ds.Pairwise fun a b => a.line < b.line) (upTo : ∀ d ∈ ds, (d.line : ℤ) ≤ last)
    (some : -1 ≤ last) : ((ds.foldl Declaration.track Tracker.empty).closeAll last).Nested last := by
  refine Tracker.Nested.close ?_ (List.append_nil _).symm
  exact (Tracker.nested_empty (-1)).foldl_track rising (fun _ _ => by omega) some upTo

/-- Blocks end on a line of the file, and not before they begin. -/
theorem ended_of_mem_blocksOf (rising : ds.Pairwise fun a b => a.line < b.line)
    (upTo : ∀ d ∈ ds, (d.line : ℤ) ≤ last) (some : -1 ≤ last) :
    ∀ b ∈ blocksOf ds last, b.startLine ≤ b.endLine ∧ b.endLine ≤ last := by
  intro b member
  exact (nested_closeAll rising upTo some).ended b ((List.mergeSort_perm ..).mem_iff.mp member)

/-- Each block leads all those that are listed after it. -/
theorem pairwise_leads_blocksOf (rising : ds.Pairwise fun a b => a.line < b.line)
    (upTo : ∀ d ∈ ds, (d.line : ℤ) ≤ last) (some : -1 ≤ last) : (blocksOf ds last).Pairwise Block.Leads := by
  have compatible : (blocksOf ds last).Pairwise Block.Compatible :=
    (List.mergeSort_perm ..).symm.pairwise (nested_closeAll rising upTo some).compatible Block.Compatible.symm
  refine List.Pairwise.imp₂ ?_ compatible (pairwise_blocksOf ds last)
  intro a b compatible inOrder
  exact compatible.resolve_right fun reversed => absurd reversed.1 (not_lt.mpr inOrder)

end Blocks

end Chunkwise
