import Chunkwise.Proofs.Collection.Names
import Chunkwise.Proofs.Outline.Imports
import Chunkwise.Proofs.Pass.LineStarts
import Chunkwise.Proofs.Pass.References
import Chunkwise.Proofs.Reference.Descriptions
import Chunkwise.Proofs.Wrapping

/-!
# The text can be taken out of the wrapped chunks

What the wrapping of a chunk says about it comes from the text, but in single lines: its files by name, with the items
that they import and the functions that they call. So the content of a chunk is what follows the first heading in its
wrapped text, and as the chunks tile the text, their contents make it up again.
-/

namespace Chunkwise

/-! ## Taking off the wrapping -/

namespace Wrapping

/-- What a wrapped text holds below its heading. -/
def unwrap (wrapped : Text) : Text := (Text.afterFirst? contentHeading wrapped).getD []

/-- What wrapped texts hold below their headings, joined in order. The last one ends with the completion. -/
def unwrapAll : List Text → Text
  | [] => []
  | [last] => Text.dropEnding completion (unwrap last)
  | wrapped :: next :: rest => unwrap wrapped ++ unwrapAll (next :: rest)

/-- What follows the heading of the chunk in a given place. -/
def Follows (total i : ℕ) (c : Chunk) : Prop :=
  Text.afterFirst? contentHeading c.wrapped = some (c.content ++ if i + 1 = total then completion else [])

/-- Where the heading of each chunk is followed by its content, unwrapping gives the contents back. -/
theorem unwrapAll_wrapped {chunks : List Chunk} {total index : ℕ} (count : index + chunks.length = total)
    (follows : ∀ i c, chunks[i]? = some c → Follows total (index + i) c) :
    unwrapAll (chunks.map (·.wrapped)) = (chunks.map (·.content)).flatten := by
  induction chunks generalizing index with
  | nil => rfl
  | cons c rest ih =>
    have here : Follows total index c := follows 0 c rfl
    cases rest with
    | nil =>
      have last : index + 1 = total := count
      rw [Follows, if_pos last] at here
      simp [unwrapAll, unwrap, here, Text.dropEnding_append]
    | cons d more =>
      have inner : index + 1 ≠ total := by
        simp only [List.length_cons] at count
        omega
      have count' : index + 1 + (d :: more).length = total := by
        simp only [List.length_cons] at count ⊢
        omega
      have later := ih count' fun i e placed => by
        rw [Nat.add_assoc, Nat.add_comm 1]
        exact follows (i + 1) e placed
      rw [Follows, if_neg inner, List.append_nil] at here
      calc unwrapAll ((c :: d :: more).map (·.wrapped))
          = unwrap c.wrapped ++ unwrapAll ((d :: more).map (·.wrapped)) := rfl
        _ = ((c :: d :: more).map (·.content)).flatten := by
          rw [later, unwrap, here, Option.getD_some]
          rfl

theorem getElem?_applyFrom (listed : ℤ) (total index i : ℕ) (chunks : List Chunk) :
    (applyFrom listed total index chunks)[i]? = chunks[i]?.map (apply listed ↑(index + i) total) := by
  induction chunks generalizing index i with
  | nil => rfl
  | cons c rest ih =>
    cases i with
    | zero => rfl
    | succ i =>
      rw [applyFrom, List.getElem?_cons_succ, List.getElem?_cons_succ, ih, Nat.add_right_comm, Nat.add_assoc]

/-- A chunk is wrapped according to its place. -/
theorem wrapped_eq {chunks : List Chunk} {i : ℕ} {c : Chunk} (placed : (applyAll chunks)[i]? = some c) :
    c.wrapped = wrap defaultListed c i chunks.length := by
  rw [applyAll, getElem?_applyFrom, Nat.zero_add] at placed
  obtain ⟨d, -, rfl⟩ := Option.map_eq_some_iff.mp placed
  rfl

end Wrapping

/-! ## What is said about a chunk -/

namespace Chunk

theorem no_feed_semanticSummary {shares : Keyed FileShare} (names : ∀ name ∈ shares.keys, '\n' ∉ name) :
    '\n' ∉ semanticSummary shares := by
  have joined {some : List Text} (among : some ⊆ shares.keys) : '\n' ∉ Text.join ", ".toList some :=
    Text.no_feed_join (by decide) fun name member => names name (among member)
  unfold semanticSummary
  refine List.not_mem_append (List.not_mem_append (List.not_mem_append (List.not_mem_append ?_ ?_) ?_) ?files) ?blocks
  · exact Text.no_feed_words (by decide)
  · exact no_feed_decimal _
  · exact Text.no_feed_words (by decide)
  case files =>
    split
    · exact List.not_mem_nil
    · split
      · exact List.not_mem_append (Text.no_feed_words (by decide)) (joined (List.Subset.refl _))
      · simp only [List.mem_append, not_or]
        exact ⟨⟨⟨⟨Text.no_feed_words (by decide), joined (List.take_subset _ _)⟩, Text.no_feed_words (by decide)⟩,
          no_feed_decimal _⟩, Text.no_feed_words (by decide)⟩
  case blocks =>
    split
    · exact List.not_mem_nil
    · simp only [List.mem_append, not_or]
      exact ⟨⟨⟨⟨Text.no_feed_words (by decide), no_feed_decimal _⟩, Text.no_feed_words (by decide)⟩,
        no_feed_decimal _⟩, Text.no_feed_words (by decide)⟩

/-- The names of the files and the summary of a chunk are in one line each. -/
def ToldInLines (c : Chunk) : Prop := (∀ name ∈ c.fileNames, '\n' ∉ name) ∧ '\n' ∉ c.summary

theorem toldInLines_sized (content : Text) (target : TargetSize) : ∀ c ∈ sized content target, c.ToldInLines := by
  intro c member
  obtain ⟨i, s, piece, own⟩ := exists_of_mem_ofPieces c member
  cases own
  exact ⟨List.forall_mem_nil _, List.not_mem_append (Text.no_feed_words (by decide)) (no_feed_decimal _)⟩

theorem summary_ofDraft {content : Text} {index : ℕ} {d : Draft} {c : Chunk}
    (made : ofDraft content index d = .ok c) :
    (c.shares, c.summary) =
      (FileShare.ofBoundaries d.boundaries, semanticSummary (FileShare.ofBoundaries d.boundaries)) := by
  obtain ⟨importance, -, is⟩ := Fault.bind_ok.mp made
  cases is
  rfl

theorem toldInLines_semantic {content : Text} {boundaries : List Boundary} {target : TargetSize} {chunks : List Chunk}
    (plain : ∀ b ∈ boundaries, '\n' ∉ b.filename) (packed : semantic content boundaries target = .ok chunks) :
    ∀ c ∈ chunks, c.ToldInLines := by
  intro c member
  have names : ∀ name ∈ c.fileNames, '\n' ∉ name := by
    intro name named
    have nonempty := ne_nil_of_mem_semantic packed member
    obtain ⟨b, inBoundaries, -, rfl, -⟩ := exists_of_mem_fileNames nonempty packed member named
    exact plain b inBoundaries
  refine ⟨names, ?_⟩
  obtain ⟨i, d, -, own⟩ := exists_of_mem_semantic packed c member
  obtain ⟨shares, summary⟩ := Prod.mk.inj (summary_ofDraft own)
  rw [summary, ← shares]
  exact no_feed_semanticSummary names

end Chunk

namespace Pass

variable {content : Text} {threshold : ℤ} {target : TargetSize} {strategy : Strategy} {o : Outcome}

/-! ## Passes -/

/-- The files of a text, and what they import, are named in one line each. -/
theorem namedInLines (content : Text) :
    Reference.NamedInLines (Analysis.ofContent content).files (Analysis.ofContent content).outlines where
  keys := Collection.no_feed_key
  items := by
    refine Keyed.forall_ofList (P := fun outline : Outline => ∀ i ∈ outline.imports, ∀ item ∈ i.items, '\n' ∉ item) ?_
    exact List.forall_mem_map.mpr fun f _ i inImports => Outline.no_feed_of_mem_imports inImports

theorem Gives.toldInLines (gives : Gives threshold (Analysis.ofContent content) target strategy o) :
    ∀ c ∈ o.chunks, c.ToldInLines := by
  have names : ∀ b ∈ o.boundaries, '\n' ∉ b.filename := by
    intro b member
    obtain ⟨file, inFiles, marks⟩ := gives.marks b member
    rw [marks.names]
    exact Collection.no_feed_key file inFiles
  refine gives.forall_chunks (fun _ _ _ _ => rfl) (fun _ _ => rfl) (Chunk.toldInLines_sized _ _) ?_
  exact fun _ packed => Chunk.toldInLines_semantic names packed

/-- Everything that the wrapping of a chunk says about it is in one line. -/
theorem Gives.inLines (gives : Gives threshold (Analysis.ofContent content) target strategy o) :
    ∀ c ∈ o.chunks, Wrapping.InLines c := by
  intro c member
  obtain ⟨names, summary⟩ := gives.toldInLines c member
  refine ⟨names, summary, fun r has => ?_⟩
  by_cases none : o.boundaries = []
  · rw [gives.references_eq_nil none c member] at has
    cases has
  · rw [gives.references_eq none c member] at has
    obtain ⟨-, original, recorded, leads⟩ := Reference.exists_of_mem_ofChunk has
    obtain ⟨-, -, -, -, -, description⟩ := Reference.leadsTo?_eq_some_iff.mp leads
    rw [description]
    exact Reference.no_feed_description (namedInLines content) recorded

theorem Gives.wrapped_eq {a : Analysis} (gives : Gives threshold a target strategy o) {i : ℕ} {c : Chunk}
    (placed : o.chunks[i]? = some c) : c.wrapped = Wrapping.wrap Wrapping.defaultListed c i o.chunks.length := by
  obtain ⟨chunks, is⟩ : ∃ chunks, o.chunks = Wrapping.applyAll chunks := by
    rcases gives.cut with ⟨-, is⟩ | ⟨-, chunks, -, is⟩
    · exact ⟨_, is⟩
    · exact ⟨_, is⟩
  rw [is] at placed ⊢
  rw [Wrapping.length_applyAll]
  exact Wrapping.wrapped_eq placed

theorem Gives.follows (gives : Gives threshold (Analysis.ofContent content) target strategy o) {i : ℕ} {c : Chunk}
    (placed : o.chunks[i]? = some c) : Wrapping.Follows o.chunks.length i c := by
  have below : Text.afterFirst? Wrapping.contentHeading
      (Wrapping.wrap Wrapping.defaultListed c i o.chunks.length) = _ :=
    Wrapping.afterFirst?_wrap (gives.inLines c (List.mem_of_getElem? placed))
  have last : (i : ℤ) = o.chunks.length - 1 ↔ i + 1 = o.chunks.length := by omega
  rw [← gives.wrapped_eq placed] at below
  simpa only [Wrapping.Follows, last] using below

/-- The text can be taken out of the wrapped chunks, whatever names are in it. A pass over any text of fewer than 2⁵⁰⁰
    characters gives chunks, whatever the strategy, the threshold and the analysis that was kept. Whenever a pass gives
    chunks, what follows the first heading in the wrapped text of each is its content, with nothing after it but the
    completion in the last one, and these contents make up the text. -/
theorem text_unwrapped (content : Text) (target : TargetSize) (small : target.value < 2 ^ 1000) (threshold : ℤ)
    (strategy : Strategy) (kept : Option Text) :
    (content.length < 2 ^ 500 → ∃ o,
      run threshold content (.int target.value) (.text strategy.word) (kept.map Analysis.ofContent) = .ok o) ∧
    ∀ o, run threshold content (.int target.value) (.text strategy.word) (kept.map Analysis.ofContent) = .ok o →
      (∀ (i : ℕ) (c : Chunk), o.chunks[i]? = some c → c.index = i ∧
        Text.afterFirst? Wrapping.contentHeading c.wrapped =
          some (c.content ++ if i + 1 = o.chunks.length then Wrapping.completion else [])) ∧
      Wrapping.unwrapAll (o.chunks.map (·.wrapped)) = content := by
  rw [run_eq_runOn]
  refine ⟨fun short => runOn_total threshold strategy short (by norm_num) small (by norm_num), ?_⟩
  intro o made
  have gives := gives_of_runOn made
  refine ⟨fun i c placed => ⟨?_, gives.follows placed⟩, ?_⟩
  · simpa using gives.tiles.index_eq placed
  · rw [Wrapping.unwrapAll_wrapped (Nat.zero_add o.chunks.length) fun i c placed => ?_, gives.tiles.flatten]
    · rfl
    · rw [Nat.zero_add]
      exact gives.follows placed

/-- A file that has the title of the heading for a name and begins with the heading. -/
def headedFile : Text := (Header.mk Wrapping.title []).text ++ Wrapping.contentHeading ++ "x = 1\n".toList

/-- Neither the name of the file nor the heading in it is taken for the heading of a chunk. -/
theorem text_unwrapped_headed :
    ∃ o, run 7 headedFile (.int 100) (.text Strategy.semantic.word) none = .ok o ∧
      (∀ (i : ℕ) (c : Chunk), o.chunks[i]? = some c → c.index = i ∧
        Text.afterFirst? Wrapping.contentHeading c.wrapped =
          some (c.content ++ if i + 1 = o.chunks.length then Wrapping.completion else [])) ∧
      Wrapping.unwrapAll (o.chunks.map (·.wrapped)) = headedFile := by
  have short : headedFile.length < 500 := by decide +kernel
  have small : 100 < 2 ^ 1000 := Binary.lt_two_pow (by decide)
  obtain ⟨total, unwrapped⟩ := text_unwrapped headedFile ⟨100, by decide⟩ small 7 .semantic none
  obtain ⟨o, made⟩ := total (Binary.lt_two_pow short)
  exact ⟨o, made, unwrapped o made⟩

end Pass

end Chunkwise
