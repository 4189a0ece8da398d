import Chunkwise.Reference.Calls
import Mathlib.Data.List.TakeWhile
import Mathlib.Tactic

/-!
# What a call site is

A text is made of runs of the characters that a name may hold, and of other characters between them. A run before a
parenthesis calls one name: what is left of the run from the first place on where a name may begin. The scan of a text
finds the names that are called in this sense, and no others.
-/

namespace Chunkwise.Reference

variable {c : Char} {previous : Option Char} {t front run rest name : Text} {i : ℕ}

/-! ## Classes of characters -/

theorem continuesName_of_beginsName (begins : beginsName c) : continuesName c := by
  simp only [beginsName, continuesName, Bool.or_eq_true, beq_iff_eq] at begins ⊢
  rcases begins with (letter | rfl) | rfl
  · have ascii : c.toNat < 128 := by
      rcases (Bool.or_eq_true _ _).mp letter with upper | lower
      · have range : c.val ≥ 'A'.val ∧ c.val ≤ 'Z'.val := of_decide_eq_true upper
        exact (UInt32.le_iff_toNat_le.mp range.2).trans_lt (by decide)
      · have last : c.val ≤ 'z'.val := of_decide_eq_true ((Bool.and_eq_true _ _).mp lower).2
        exact (UInt32.le_iff_toNat_le.mp last).trans_lt (by decide)
    exact Or.inl (by simp [Text.isWord, ascii, Char.isAlphanum, letter])
  · exact Or.inl (by decide)
  · exact Or.inr rfl

/-- The code points of the blank characters. -/
def blankPlaces : List ℕ :=
  List.range' 9 5 ++ List.range' 28 5 ++ [0x85, 0xA0, 0x1680] ++ List.range' 0x2000 11 ++
    [0x2028, 0x2029, 0x202F, 0x205F, 0x3000]

theorem not_continuesName_of_isBlank (blank : Text.isBlank c) : continuesName c = false := by
  have none : ∀ n ∈ blankPlaces, continuesName (Char.ofNat n) = false := by decide +kernel
  rw [← Char.ofNat_toNat c]
  apply none
  simp only [Text.isBlank, Bool.or_eq_true, Bool.and_eq_true, decide_eq_true_eq, beq_iff_eq] at blank
  simp only [blankPlaces, List.mem_append, List.mem_range'_1, List.mem_cons, List.not_mem_nil, or_false]
  omega

/-! ## Names in runs -/

/-- The character before what comes behind `front`, when `front` itself comes behind `previous`. -/
def lastOf (previous : Option Char) (front : Text) : Option Char := front.getLast?.or previous

theorem lastOf_cons : lastOf previous (c :: front) = lastOf (some c) front := by
  simp only [lastOf, List.getLast?_cons]
  cases front.getLast? <;> rfl

theorem lastOf_append : lastOf previous (front ++ t) = lastOf (lastOf previous front) t := by
  simp only [lastOf, List.getLast?_append, Option.or_assoc]

/-- A name may begin at place `i` of a run: there is a letter, an underscore or a dollar sign, and a word begins or ends
    before it. -/
def BeginsAt (previous : Option Char) (run : Text) (i : ℕ) : Prop :=
  ∃ c, run[i]? = some c ∧ beginsName c ∧ isWordEdge (lastOf previous (run.take i)) c

/-- What a run names: what is left of it from the first place on where a name may begin. -/
def Names (previous : Option Char) (run name : Text) : Prop :=
  ∃ i, BeginsAt previous run i ∧ (∀ j < i, ¬ BeginsAt previous run j) ∧ name = run.drop i

/-- The name in a run, by recursion on the run. -/
def nameIn? (previous : Option Char) : Text → Option Text
  | [] => none
  | c :: rest => if beginsName c && isWordEdge previous c then some (c :: rest) else nameIn? (some c) rest

theorem beginsAt_zero : BeginsAt previous (c :: run) 0 ↔ beginsName c && isWordEdge previous c := by
  simp [BeginsAt, lastOf]

theorem beginsAt_succ : BeginsAt previous (c :: run) (i + 1) ↔ BeginsAt (some c) run i := by
  simp only [BeginsAt, List.getElem?_cons_succ, List.take_succ_cons, lastOf_cons]

theorem nameIn?_eq_some_iff : nameIn? previous run = some name ↔ Names previous run name := by
  induction run generalizing previous with
  | nil => simp [nameIn?, Names, BeginsAt]
  | cons c run ih =>
    unfold nameIn?
    by_cases here : beginsName c && isWordEdge previous c
    · rw [if_pos here, Option.some.injEq]
      have first : BeginsAt previous (c :: run) 0 := beginsAt_zero.mpr here
      constructor
      · rintro rfl
        exact ⟨0, first, fun j before => absurd before (Nat.not_lt_zero j), rfl⟩
      · rintro ⟨i, -, none, rfl⟩
        obtain rfl : i = 0 := Nat.eq_zero_of_not_pos fun positive => none 0 positive first
        rfl
    · rw [if_neg here, ih]
      have missing : ¬ BeginsAt previous (c :: run) 0 := mt beginsAt_zero.mp here
      constructor
      · rintro ⟨i, begins, none, rfl⟩
        refine ⟨i + 1, beginsAt_succ.mpr begins, ?_, rfl⟩
        rintro (_ | j) before
        · exact missing
        · exact mt beginsAt_succ.mp (none j (Nat.lt_of_succ_lt_succ before))
      · rintro ⟨_ | i, begins, none, rfl⟩
        · exact absurd begins missing
        · exact ⟨i, beginsAt_succ.mp begins, fun j before => mt beginsAt_succ.mpr (none (j + 1) (Nat.succ_lt_succ before)),
            rfl⟩

/-! ## Call sites -/

/-- A name is called in a text: blank characters or none stand between a run that names it and a parenthesis. The run
    cannot be longer to the left, and no character that may follow it could lengthen it to the right. -/
def CallSite (previous : Option Char) (t name : Text) : Prop :=
  ∃ front run blanks rest, t = front ++ (run ++ (blanks ++ '(' :: rest)) ∧
    (∀ c ∈ lastOf previous front, continuesName c = false) ∧ (∀ c ∈ run, continuesName c) ∧
    (∀ c ∈ blanks, Text.isBlank c) ∧ Names (lastOf previous front) run name

/-- The next character that is not blank is a parenthesis. -/
def Opens (t : Text) : Prop := (t.dropWhile Text.isBlank).head? = some '('

instance : Decidable (Opens t) := inferInstanceAs (Decidable (_ = _))

theorem opens_iff : Opens t ↔ ∃ blanks rest, t = blanks ++ '(' :: rest ∧ ∀ c ∈ blanks, Text.isBlank c := by
  constructor
  · intro opens
    obtain ⟨rest, is⟩ := List.head?_eq_some_iff.mp opens
    refine ⟨t.takeWhile Text.isBlank, rest, ?_, fun c member => List.mem_takeWhile_imp member⟩
    rw [← is, List.takeWhile_append_dropWhile]
  · rintro ⟨blanks, rest, rfl, blank⟩
    rw [Opens, List.dropWhile_append_of_pos blank, List.dropWhile_cons_of_neg (by decide)]
    rfl

/-! ## The scan -/

theorem callsFrom_skip (previous : Option Char) (front t : Text) :
    callsFrom previous front.length (front ++ t) = callsFrom (lastOf previous front) 0 t := by
  induction front generalizing previous with
  | nil => rfl
  | cons c front ih =>
    rw [lastOf_cons, ← ih]
    rfl

theorem callsFrom_of_none (missing : callAt? previous (c :: t) = none) :
    callsFrom previous 0 (c :: t) = callsFrom (some c) 0 t := by
  rw [callsFrom, missing]

theorem callAt?_eq_none (plain : ¬ (beginsName c && isWordEdge previous c)) : callAt? previous (c :: t) = none := by
  rw [callAt?, if_neg (by simpa using plain)]

/-- What is between runs calls nothing. -/
theorem callsFrom_plain (previous : Option Char) (front t : Text) (plain : ∀ c ∈ front, continuesName c = false) :
    callsFrom previous 0 (front ++ t) = callsFrom (lastOf previous front) 0 t := by
  induction front generalizing previous with
  | nil => rfl
  | cons c front ih =>
    obtain ⟨here, later⟩ := List.forall_mem_cons.mp plain
    rw [lastOf_cons, ← ih _ later, List.cons_append]
    refine callsFrom_of_none (callAt?_eq_none fun begins => ?_)
    simp only [Bool.and_eq_true] at begins
    exact absurd (continuesName_of_beginsName begins.1) (by simp [here])

theorem takeWhile_run (inRun : ∀ d ∈ run, continuesName d) (ends : ∀ d ∈ rest.head?, continuesName d = false) :
    (run ++ rest).takeWhile continuesName = run ∧ (run ++ rest).dropWhile continuesName = rest := by
  rw [List.takeWhile_append_of_pos inRun, List.dropWhile_append_of_pos inRun]
  cases rest with
  | nil => simp
  | cons d rest => simp [ends d rfl]

/-- At a place in a run where a name may begin, what is left of the run is called if a parenthesis follows. -/
theorem callAt?_run (begins : beginsName c && isWordEdge previous c) (inRun : ∀ d ∈ c :: run, continuesName d)
    (ends : ∀ d ∈ rest.head?, continuesName d = false) :
    callAt? previous (c :: (run ++ rest)) =
      if Opens rest then some (c :: run, run.length + 1 + (rest.takeWhile Text.isBlank).length + 1) else none := by
  obtain ⟨taken, left⟩ := takeWhile_run inRun ends
  rw [List.cons_append] at taken left
  have here : (c :: (run ++ rest)).head?.any fun c => beginsName c && isWordEdge previous c := by simpa using begins
  rw [callAt?, if_pos here, taken, left]
  by_cases opens : Opens rest
  · rw [if_pos opens, if_pos (beq_iff_eq.mpr opens), List.length_cons]
  · rw [if_neg opens, if_neg (mt beq_iff_eq.mp opens)]

/-- The scan goes on behind a call as it would behind the run. -/
theorem callsFrom_called {blanks : Text} (blank : ∀ c ∈ blanks, Text.isBlank c) :
    callsFrom previous (run.length + (blanks.length + 1)) (run ++ (blanks ++ '(' :: rest)) =
      callsFrom (lastOf previous run) 0 (blanks ++ '(' :: rest) := by
  have plain : ∀ c ∈ blanks ++ ['('], continuesName c = false :=
    List.forall_mem_append.mpr ⟨fun c member => not_continuesName_of_isBlank (blank c member),
      List.forall_mem_singleton.mpr (by decide)⟩
  have skipped := callsFrom_skip previous (run ++ (blanks ++ ['('])) rest
  rw [lastOf_append, ← callsFrom_plain _ _ _ plain] at skipped
  simpa using skipped

/-- A run calls the name in it if a parenthesis follows. -/
theorem callsFrom_run (inRun : ∀ d ∈ run, continuesName d) (ends : ∀ d ∈ rest.head?, continuesName d = false) :
    callsFrom previous 0 (run ++ rest) =
      (if Opens rest then (nameIn? previous run).toList else []) ++ callsFrom (lastOf previous run) 0 rest := by
  induction run generalizing previous with
  | nil => simp [nameIn?, lastOf]
  | cons c run ih =>
    obtain ⟨-, later⟩ := List.forall_mem_cons.mp inRun
    unfold nameIn?
    by_cases begins : beginsName c && isWordEdge previous c
    · have call := callAt?_run begins inRun ends
      by_cases opens : Opens rest
      · rw [if_pos opens] at call
        rw [if_pos opens, if_pos begins, lastOf_cons, List.cons_append, callsFrom, call]
        obtain ⟨blanks, after, rfl, blank⟩ := opens_iff.mp opens
        rw [List.takeWhile_append_of_pos blank, List.takeWhile_cons_of_neg (by decide), List.append_nil]
        rw [← callsFrom_called blank, Nat.add_assoc run.length, Nat.add_comm 1]
        rfl
      · rw [if_neg opens] at call ⊢
        rw [List.cons_append, callsFrom_of_none call, ih later, if_neg opens, lastOf_cons]
    · rw [if_neg begins, List.cons_append, callsFrom_of_none (callAt?_eq_none begins), ih later, lastOf_cons]

/-! ## Agreement -/

theorem Names.ne_nil (names : Names previous run name) : run ≠ [] := by
  obtain ⟨i, ⟨c, here, -⟩, -⟩ := names
  rintro rfl
  cases here

theorem callSite_cons (plain : continuesName c = false) :
    CallSite previous (c :: t) name ↔ CallSite (some c) t name := by
  constructor
  · rintro ⟨front, run, blanks, rest, is, maximal, inRun, blank, names⟩
    cases front with
    | nil =>
      obtain ⟨d, run, rfl⟩ := List.exists_cons_of_ne_nil names.ne_nil
      obtain rfl : c = d := (List.cons.inj is).1
      exact absurd (inRun c List.mem_cons_self) (by simp [plain])
    | cons d front =>
      obtain ⟨rfl, later⟩ := List.cons.inj is
      rw [lastOf_cons] at maximal names
      exact ⟨front, run, blanks, rest, later, maximal, inRun, blank, names⟩
  · rintro ⟨front, run, blanks, rest, rfl, maximal, inRun, blank, names⟩
    rw [← lastOf_cons] at maximal names
    exact ⟨c :: front, run, blanks, rest, rfl, maximal, inRun, blank, names⟩

/-- The call sites of a text that begins with a run are one in that run or are behind it. -/
theorem callSite_run (apart : ∀ c ∈ previous, continuesName c = false) (inRun : ∀ c ∈ run, continuesName c)
    (ends : ∀ c ∈ rest.head?, continuesName c = false) :
    CallSite previous (run ++ rest) name ↔
      Opens rest ∧ Names previous run name ∨ CallSite (lastOf previous run) rest name := by
  constructor
  · rintro ⟨front, run', blanks, after, is, maximal, inRun', blank, names⟩
    have ends' : ∀ c ∈ (blanks ++ '(' :: after).head?, continuesName c = false := by
      cases blanks with
      | nil => simp [show continuesName '(' = false by decide]
      | cons b blanks => simpa using not_continuesName_of_isBlank (blank b List.mem_cons_self)
    rcases List.append_eq_append_iff.mp is with ⟨between, rfl, later⟩ | ⟨left, rfl, same⟩
    · rw [lastOf_append] at maximal names
      exact Or.inr ⟨between, run', blanks, after, later, maximal, inRun', blank, names⟩
    · -- A run that begins within this one is this one, since no run begins behind a character of a run.
      rcases List.eq_nil_or_concat front with rfl | ⟨front, c, rfl⟩
      · obtain ⟨taken, dropped⟩ := takeWhile_run inRun' ends'
        obtain ⟨taken', dropped'⟩ := takeWhile_run inRun ends
        rw [same] at taken dropped
        obtain rfl : run' = left := taken.symm.trans taken'
        obtain rfl : blanks ++ '(' :: after = rest := dropped.symm.trans dropped'
        exact Or.inl ⟨opens_iff.mpr ⟨blanks, after, rfl, blank⟩, names⟩
      · have continues := inRun c (by simp)
        have stops := maximal c (by simp [lastOf])
        exact absurd continues (by simp [stops])
  · rintro (⟨opens, names⟩ | ⟨front, run', blanks, after, rfl, maximal, inRun', blank, names⟩)
    · obtain ⟨blanks, after, rfl, blank⟩ := opens_iff.mp opens
      exact ⟨[], run, blanks, after, rfl, apart, inRun, blank, names⟩
    · rw [← lastOf_append] at maximal names
      exact ⟨run ++ front, run', blanks, after, List.append_assoc .. ▸ rfl, maximal, inRun', blank, names⟩

/-- A text begins with a run, which may be empty. -/
theorem exists_run (t : Text) :
    ∃ run rest, t = run ++ rest ∧ (∀ c ∈ run, continuesName c) ∧ ∀ c ∈ rest.head?, continuesName c = false := by
  refine ⟨t.takeWhile continuesName, t.dropWhile continuesName, List.takeWhile_append_dropWhile.symm,
    fun c member => List.mem_takeWhile_imp member, fun c first => ?_⟩
  have stops := List.head?_dropWhile_not continuesName t
  rwa [Option.mem_def.mp first] at stops

/-- The scan finds the called names of what is left of a text, unless that is the middle of a run. -/
theorem mem_callsFrom_iff (apart : ∀ c ∈ previous, continuesName c → ∀ d ∈ t.head?, continuesName d = false) :
    name ∈ callsFrom previous 0 t ↔ CallSite previous t name := by
  induction h : t.length using Nat.strong_induction_on generalizing t previous with
  | _ n ih =>
    cases t with
    | nil =>
      refine iff_of_false List.not_mem_nil ?_
      rintro ⟨front, run, blanks, rest, is, -⟩
      simp at is
    | cons c rest =>
      cases kind : continuesName c with
      | false =>
        have plain : ∀ d ∈ [c], continuesName d = false := List.forall_mem_singleton.mpr kind
        have skipped := callsFrom_plain previous [c] rest plain
        rw [List.singleton_append] at skipped
        rw [callSite_cons kind, ← ih rest.length (by simp [← h]) (by simp [kind]) rfl, skipped]
        rfl
      | true =>
        have before : ∀ d ∈ previous, continuesName d = false := fun d is =>
          Bool.eq_false_iff.mpr fun continues => by simp [apart d is continues c rfl] at kind
        obtain ⟨run, left, split, inRun, ends⟩ := exists_run (c :: rest)
        have some : run ≠ [] := by
          rintro rfl
          have stops := ends c (by rw [List.nil_append] at split; rw [← split]; rfl)
          exact absurd kind (by simp [stops])
        have shorter : left.length < n := by
          have := List.length_pos_iff.mpr some
          rw [← h, split, List.length_append]
          omega
        rw [split, callsFrom_run inRun ends, callSite_run before inRun ends, List.mem_append,
          ih left.length shorter (fun _ _ _ => ends) rfl]
        by_cases opens : Opens left
        · simp [opens, nameIn?_eq_some_iff]
        · simp [opens]

/-- The scan of a text finds exactly the names that are called in it. -/
theorem mem_calledNames_iff : name ∈ calledNames t ↔ CallSite none t name :=
  mem_callsFrom_iff (by simp)

example : calledNames "$load (9$run(x.open()))".toList = ["load".toList, "$run".toList, "open".toList] := by decide

end Chunkwise.Reference
