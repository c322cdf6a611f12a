import Bindery.Proofs.Loaded
import Bindery.Proofs.Passage

/-!
# How far a pipeline gets

A run of a pipeline is a row of passes that were admitted and finished, and then the first pass that
is not: it is refused before it touches anything, or it stops by itself. The stage of the tree goes
only forward, and no pass starts before the stage that it needs. Main statement:
`run_longest_beginning`.
-/

namespace Bindery

namespace Stage

/-- A stage is the last of some stages. -/
structure IsLast (stage : Stage) (stages : List Stage) : Prop where
  /-- It is one of them. -/
  mem : stage ∈ stages
  /-- None is later. -/
  le : ∀ other ∈ stages, other ≤ stage

/-- The stage that passes lead to is the last of the one at the start and those that they lead
to. -/
theorem isLast_stageAfter (passes : List Pass) (stage : Stage) :
    (Pass.stageAfter passes stage).IsLast (stage :: passes.map Pass.leadsTo) := by
  induction passes generalizing stage with
  | nil =>
    refine ⟨List.mem_singleton_self stage, fun other ho => ?_⟩
    rw [List.mem_singleton.1 ho]
    exact Nat.le_refl stage.rank
  | cons pass passes ih =>
    obtain ⟨mem, le⟩ := ih (stage.later pass.leadsTo)
    have later : stage.later pass.leadsTo = stage ∨
        stage.later pass.leadsTo = pass.leadsTo := by
      rw [later]
      split <;> simp
    refine ⟨?_, ?_⟩
    · change Pass.stageAfter passes (stage.later pass.leadsTo) ∈ _
      rcases List.mem_cons.1 mem with same | mem
      · rw [same]
        rcases later with same | same <;> simp [same]
      · exact List.mem_cons_of_mem _ (List.mem_cons_of_mem _ mem)
    · intro other ho
      rw [List.map_cons, List.mem_cons, List.mem_cons] at ho
      have first := le (stage.later pass.leadsTo) List.mem_cons_self
      rcases ho with rfl | rfl | ho
      · exact le_trans (le_later_left _ _) first
      · exact le_trans (le_later_right _ _) first
      · exact le other (List.mem_cons_of_mem _ ho)

end Stage

namespace Pipeline

/-- Passes run one after the other: each is admitted and finishes. The stations are left with what
they have recorded, and the work is what the last one led to. -/
inductive Finishes : Pipeline → Work → Pipeline → Work → Prop
  /-- Nothing is run. -/
  | nothing (w : Work) : Finishes [] w [] w
  /-- A first pass, and others after it. -/
  | next {s : Station} {rest recorded : Pipeline} {w reached : Work}
    (ready : s.pass.needs ≤ w.tree.stage) (finished : (s.runDirectly w).2.fault = none)
    (others : Finishes rest (afterFirst s w) recorded reached) :
    Finishes (s :: rest) w ((s.runDirectly w).1 :: recorded) reached

/-- How a run ends once some passes have finished and some remain, and which of these were started
nevertheless. -/
inductive Ends (recorded : Pipeline) (reached : Work) :
    Pipeline → List Pass → Pipeline × Work → Prop
  /-- No pass remains. -/
  | completed : Ends recorded reached [] [] (recorded, reached)
  /-- The tree is not ready for the next pass: neither this one nor those behind it do anything. -/
  | refused {s : Station} {rest : Pipeline} (early : reached.tree.stage < s.pass.needs) :
    Ends recorded reached (s :: rest) []
      (recorded ++ s :: rest, reached.stop (s.refusal reached.tree.stage))
  /-- The next pass is admitted and stops: those behind it do nothing. -/
  | failed {s : Station} {rest : Pipeline} {fault : Fault}
    (ready : s.pass.needs ≤ reached.tree.stage)
    (raised : (s.runDirectly reached).2.fault = some fault) :
    Ends recorded reached (s :: rest) [s.pass]
      (recorded ++ (s.runDirectly reached).1 :: rest, (s.runDirectly reached).2)

/-- The passes that a run starts, each with the stage of the tree at that time. -/
def starts : Pipeline → Work → List (Pass × Stage)
  | [], _ => []
  | s :: rest, w =>
    if w.tree.stage < s.pass.needs then []
    else
      match (s.runDirectly w).2.fault with
      | some _ => [(s.pass, w.tree.stage)]
      | none => (s.pass, w.tree.stage) :: starts rest (afterFirst s w)

variable {p done later recorded : Pipeline} {w reached : Work} {unfinished : List Pass}
  {ended : Pipeline × Work}

/-- Passes that finish lead to their stages. -/
theorem Finishes.stage (h : Finishes done w recorded reached) :
    reached.tree.stage = Pass.stageAfter done.passes w.tree.stage := by
  induction h with
  | nothing w => rfl
  | next _ _ _ ih =>
    rw [ih, stage_afterFirst]
    rfl

/-- Passes that finish come to an end. -/
theorem Finishes.fault (h : Finishes done w recorded reached) (hw : w.fault = none) :
    reached.fault = none := by
  induction h with
  | nothing _ => exact hw
  | next _ finished _ ih => exact ih finished

/-- However a run ends, the stage is where the passes that finished have led. -/
theorem Ends.stage (h : Ends recorded reached later unfinished ended) :
    ended.2.tree.stage = reached.tree.stage := by
  cases h with
  | completed => rfl
  | refused _ => rfl
  | failed _ _ => exact stage_runDirectly _ reached

/-- A pass that has finished first stays at the front. -/
theorem Ends.cons (h : Ends recorded reached later unfinished ended) (s : Station) :
    Ends (s :: recorded) reached later unfinished (s :: ended.1, ended.2) := by
  cases h with
  | completed => exact .completed
  | refused early => exact .refused early
  | failed ready raised => exact .failed ready raised

/-- Every run finishes some passes and then ends. -/
theorem exists_finishes (p : Pipeline) (w : Work) : ∃ done later recorded reached unfinished,
    p = done ++ later ∧ Finishes done w recorded reached ∧
      Ends recorded reached later unfinished (p.run w) ∧
      (p.starts w).map Prod.fst = done.passes ++ unfinished := by
  induction p generalizing w with
  | nil => exact ⟨[], [], [], w, [], rfl, .nothing w, .completed, rfl⟩
  | cons s rest ih =>
    rw [run, starts]
    by_cases early : w.tree.stage < s.pass.needs
    · rw [if_pos early, if_pos early]
      exact ⟨[], s :: rest, [], w, [], rfl, .nothing w, .refused early, rfl⟩
    · have ready : s.pass.needs ≤ w.tree.stage := Nat.le_of_not_lt early
      rw [if_neg early, if_neg early]
      dsimp only
      cases raised : (s.runDirectly w).2.fault with
      | some fault =>
        exact ⟨[], s :: rest, [], w, [s.pass], rfl, .nothing w, .failed ready raised, rfl⟩
      | none =>
        obtain ⟨done, later, recorded, reached, unfinished, begins, finishes, ends, starts⟩ :=
          ih (afterFirst s w)
        refine ⟨s :: done, later, _, reached, unfinished, congrArg (s :: ·) begins,
          .next ready raised finishes, ends.cons _, congrArg (s.pass :: ·) starts⟩

/-- The next pass after those that a run finishes does not finish. -/
theorem Ends.not_finishes {s : Station} {rest : Pipeline}
    (h : Ends recorded reached (s :: rest) unfinished ended)
    (ready : s.pass.needs ≤ reached.tree.stage) : (s.runDirectly reached).2.fault ≠ none := by
  cases h with
  | refused early => exact absurd ready (Nat.not_le_of_lt early)
  | failed _ raised =>
    rw [raised]
    exact Option.some_ne_none _

/-- A beginning of the passes that finishes is no longer than one after which the next pass does
not. -/
theorem Finishes.longest (h : Finishes done w recorded reached)
    (next : ∀ s rest, later = s :: rest → s.pass.needs ≤ reached.tree.stage →
      (s.runDirectly reached).2.fault ≠ none)
    {other rest recorded' : Pipeline} {reached' : Work} (begins : done ++ later = other ++ rest)
    (h' : Finishes other w recorded' reached') : other <+: done := by
  induction h generalizing other recorded' with
  | nothing w =>
    cases h' with
    | nothing => exact List.prefix_rfl
    | next ready finished _ => exact absurd finished (next _ _ begins ready)
  | next _ _ _ ih =>
    cases h' with
    | nothing => exact List.nil_prefix
    | next _ _ others =>
      obtain ⟨rfl, tails⟩ := List.cons.inj begins
      exact (List.prefix_cons_inj _).2 (ih next tails others)

/-! ## Starts -/

/-- Between two stages passes were started, each at a stage at which the tree was ready for it, and
never back. -/
structure IsForward (first : Stage) (log : List (Pass × Stage)) (last : Stage) : Prop where
  /-- The tree has not gone back. -/
  le : first ≤ last
  /-- Every pass was started at the stage that it needs or a later one. -/
  ready : ∀ entry ∈ log, entry.1.needs ≤ entry.2
  /-- Every pass was started at a stage in between. -/
  between : ∀ entry ∈ log, first ≤ entry.2 ∧ entry.2 ≤ last
  /-- What was started later was started at that stage or a later one. -/
  ordered : log.Pairwise fun entry later => entry.2 ≤ later.2

/-- Nothing was started. -/
theorem isForward_nil (stage : Stage) : IsForward stage [] stage :=
  ⟨Nat.le_refl stage.rank, nofun, nofun, .nil⟩

/-- One pass was started. -/
theorem isForward_single {pass : Pass} {stage last : Stage} (ready : pass.needs ≤ stage)
    (le : stage ≤ last) : IsForward stage [(pass, stage)] last := by
  refine ⟨le, ?_, ?_, List.pairwise_singleton _ _⟩
  all_goals intro entry hentry; obtain rfl := List.mem_singleton.1 hentry
  · exact ready
  · exact ⟨Nat.le_refl stage.rank, le⟩

/-- What was started, and what was started after that. -/
theorem IsForward.append {first middle last : Stage} {log log' : List (Pass × Stage)}
    (h : IsForward first log middle) (h' : IsForward middle log' last) :
    IsForward first (log ++ log') last where
  le := Stage.le_trans h.le h'.le
  ready := by
    intro entry hentry
    exact (List.mem_append.1 hentry).elim (h.ready entry) (h'.ready entry)
  between := by
    intro entry hentry
    rcases List.mem_append.1 hentry with hentry | hentry
    · exact ⟨(h.between entry hentry).1, Stage.le_trans (h.between entry hentry).2 h'.le⟩
    · exact ⟨Stage.le_trans h.le (h'.between entry hentry).1, (h'.between entry hentry).2⟩
  ordered := by
    refine List.pairwise_append.2 ⟨h.ordered, h'.ordered, fun entry hentry later hlater => ?_⟩
    exact Stage.le_trans (h.between entry hentry).2 (h'.between later hlater).1

/-- A run starts passes for which the tree is ready, and does not lead back. -/
theorem isForward_starts (p : Pipeline) (w : Work) :
    IsForward w.tree.stage (p.starts w) (p.run w).2.tree.stage := by
  induction p generalizing w with
  | nil => exact isForward_nil w.tree.stage
  | cons s rest ih =>
    rw [run, starts]
    by_cases early : w.tree.stage < s.pass.needs
    · rw [if_pos early, if_pos early]
      exact isForward_nil w.tree.stage
    · have ready : s.pass.needs ≤ w.tree.stage := Nat.le_of_not_lt early
      rw [if_neg early, if_neg early]
      dsimp only
      cases raised : (s.runDirectly w).2.fault with
      | some fault =>
        dsimp only
        rw [stage_runDirectly]
        exact isForward_single ready (Nat.le_refl w.tree.stage.rank)
      | none =>
        have first : IsForward w.tree.stage [(s.pass, w.tree.stage)]
            (afterFirst s w).tree.stage := by
          rw [stage_afterFirst]
          exact isForward_single ready (Stage.le_later_left _ _)
        exact first.append (ih (afterFirst s w))

/-- Runs of pipelines on a tree, whatever they record, with all that was started and the tree that
they led to. -/
inductive Logs (start : Tree) : List (Pass × Stage) → Tree → Prop
  /-- Nothing was run yet. -/
  | nothing : Logs start [] start
  /-- One more pipeline was run, as far as it got. -/
  | run {log : List (Pass × Stage)} (p : Pipeline) (w : Work) (before : Logs start log w.tree) :
    Logs start (log ++ p.starts w) (p.run w).2.tree

/-- Over all runs on a tree, passes are started when it is ready for them, and it never goes back. -/
theorem Logs.isForward {start t : Tree} {log : List (Pass × Stage)} (h : Logs start log t) :
    IsForward start.stage log t.stage := by
  induction h with
  | nothing => exact isForward_nil start.stage
  | run p w _ ih => exact ih.append (isForward_starts p w)

/-- A run finishes the longest beginning of its passes of which each is admitted and finishes. Then
it is at its end, or the tree is not ready for the next pass, which is told with both stages and
leaves the tree and all records as they are, or the next pass stops and those behind it do nothing.
The stage is the last of the one at the start and those that the finished passes lead to; and over
any runs on a tree no pass starts before the stage that it needs, and the tree never goes back. -/
theorem run_longest_beginning (p : Pipeline) {w : Work} (going : w.fault = none) :
    (∃ done later recorded reached unfinished, p = done ++ later ∧
      Finishes done w recorded reached ∧ reached.fault = none ∧
      Ends recorded reached later unfinished (p.run w) ∧
      (p.starts w).map Prod.fst = done.passes ++ unfinished ∧
      (∀ other rest recorded' reached', p = other ++ rest →
        Finishes other w recorded' reached' → other <+: done) ∧
      (p.run w).2.tree.stage.IsLast (w.tree.stage :: done.passes.map Pass.leadsTo)) ∧
    (∀ (s : Station) (stage : Stage), (s.refusal stage).message =
      "Pass '" ++ s.pass.name ++ "' requires stage " ++ s.pass.needs.title ++
        " but the tree is at " ++ stage.title) ∧
    ∀ log t, Logs w.tree log t → IsForward w.tree.stage log t.stage := by
  refine ⟨?_, fun s stage => rfl, fun log t => Logs.isForward⟩
  obtain ⟨done, later, recorded, reached, unfinished, begins, finishes, ends, starts⟩ :=
    p.exists_finishes w
  refine ⟨done, later, recorded, reached, unfinished, begins, finishes, finishes.fault going, ends,
    starts, ?_, ?_⟩
  · intro other rest recorded' reached' begins' finishes'
    refine finishes.longest ?_ (begins.symm.trans begins') finishes'
    rintro s rest rfl ready
    exact ends.not_finishes ready
  · rw [ends.stage, finishes.stage]
    exact Stage.isLast_stageAfter done.passes w.tree.stage

/-- A tree that was only classified is refused for resolution, and stays as classification has left
it. -/
theorem run_longest_beginning_sample :
    let p : Pipeline := .ofPasses [.origin (.ofString "include/QtGui") {}, .resolve, .clearComments]
    let w : Work := { tree := Tree.sampleTree }
    w.fault = none ∧
      (p.run w).2.fault = some (.tooEarly "resolve" .normalized .classified) ∧
      (∃ done later, p = done ++ later ∧
        (p.run w).2.tree.stage.IsLast (w.tree.stage :: done.passes.map Pass.leadsTo)) ∧
      (p.starts w).map (fun entry => (entry.1.name, entry.2)) = [("origin", .parsed)] ∧
      IsForward .parsed (p.starts w) .classified := by
  intro p w
  obtain ⟨⟨done, later, _, _, _, begins, _, _, _, _, _, last⟩, -, forward⟩ :=
    run_longest_beginning p (show w.fault = none from rfl)
  have stage : (p.run w).2.tree.stage = .classified := by decide +kernel
  have started := forward _ _ (.run p w .nothing)
  rw [stage, List.nil_append] at started
  exact ⟨rfl, by decide +kernel, ⟨done, later, begins, last⟩, by decide +kernel, started⟩

end Pipeline

end Bindery
