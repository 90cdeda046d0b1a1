import Mathlib.Data.List.Induction
import Mathlib.Data.List.Perm.Basic
import MergeReady.Lib.Argmax
import MergeReady.Evaluation.Checks

/-!
# The latest run of each check

The loop of `ciFromNode` computes, for each name, the first of the runs with the greatest recency.  So
the order in which the checks are listed matters where runs of one check are equally recent, and only
there.
-/

namespace MergeReady.Evaluation

open MergeReady.Lib

/-! ## The loop -/

/-- The runs of one check, as they are listed. -/
def runsOf (name : String) (contexts : List CheckContext) : List CheckContext :=
  contexts.filter fun c => c.name = some name

/-- The run that counts: of the most recent runs the one listed first. -/
def latestRun (name : String) (contexts : List CheckContext) : Option CheckContext :=
  (runsOf name contexts).argmax CheckContext.recency

theorem mem_runsOf {name : String} {contexts : List CheckContext} {c : CheckContext} :
    c ∈ runsOf name contexts ↔ c ∈ contexts ∧ c.name = some name := by
  simp [runsOf]

theorem lookup_keepLatest (latest : Table String CheckContext) (ctx : CheckContext)
    (name : String) :
    (keepLatest latest ctx).lookup name =
      if ctx.name = some name then
        match latest.lookup name with
        | some prev => if ctx.recency ≤ prev.recency then some prev else some ctx
        | none => some ctx
      else latest.lookup name := by
  unfold keepLatest
  cases hn : ctx.name with
  | none => rw [if_neg (by simp)]
  | some name' =>
    dsimp only
    by_cases h : name' = name
    · subst h
      rw [if_pos rfl]
      cases hl : latest.lookup name' with
      | none => exact AList.lookup_insert _
      | some prev =>
        dsimp only
        split
        · exact hl
        · exact AList.lookup_insert _
    · rw [if_neg (by simpa using h)]
      have hinsert := Table.lookup_insert_of_ne (t := latest) (v := ctx) (Ne.symm h)
      split
      · split
        · rfl
        · exact hinsert
      · exact hinsert

/-- **The loop keeps the run that counts**, for every name. -/
theorem lookup_latestByName (contexts : List CheckContext) (name : String) :
    (latestByName contexts).lookup name = latestRun name contexts := by
  induction contexts using List.reverseRecOn with
  | nil => rfl
  | append_singleton contexts ctx ih =>
    have hstep : latestByName (contexts ++ [ctx]) = keepLatest (latestByName contexts) ctx := by
      simp [latestByName]
    rw [hstep, lookup_keepLatest, ih]
    unfold latestRun runsOf
    rw [List.filter_append]
    by_cases h : ctx.name = some name
    · have hone : [ctx].filter (fun c => c.name = some name) = [ctx] := by simp [h]
      rw [if_pos h, hone, List.argmax_concat]
      cases (contexts.filter fun c => c.name = some name).argmax CheckContext.recency with
      | none => rfl
      | some prev =>
        dsimp only
        by_cases hle : ctx.recency ≤ prev.recency
        · rw [if_pos hle, if_neg (not_lt.2 hle)]
        · rw [if_neg hle, if_pos (not_le.1 hle)]
    · have hnone : [ctx].filter (fun c => c.name = some name) = [] := by simp [h]
      rw [if_neg h, hnone, List.append_nil]

/-! ## The runs that count -/

def checkNames (contexts : List CheckContext) : List String :=
  (contexts.filterMap CheckContext.name).eraseDups

/-- One run for each name. -/
def latestRuns (contexts : List CheckContext) : List CheckContext :=
  (checkNames contexts).filterMap fun name => latestRun name contexts

theorem mem_latestRuns {contexts : List CheckContext} {c : CheckContext} :
    c ∈ latestRuns contexts ↔ ∃ name, latestRun name contexts = some c := by
  rw [latestRuns, List.mem_filterMap]
  constructor
  · rintro ⟨name, -, h⟩
    exact ⟨name, h⟩
  · rintro ⟨name, h⟩
    have hmem := mem_runsOf.1 (List.argmax_mem h)
    exact ⟨name, List.mem_eraseDups.2 (List.mem_filterMap.2 ⟨c, hmem.1, hmem.2⟩), h⟩

theorem mem_buckets {contexts : List CheckContext} {b : CheckBucket} :
    b ∈ ((latestByName contexts).entries.map fun x => contextToBucket x.2) ↔
      b ∈ (latestRuns contexts).map contextToBucket := by
  rw [List.mem_map, List.mem_map]
  constructor
  · rintro ⟨⟨name, c⟩, hc, rfl⟩
    rw [Table.mem_entries, lookup_latestByName] at hc
    exact ⟨c, mem_latestRuns.2 ⟨name, hc⟩, rfl⟩
  · rintro ⟨c, hc, rfl⟩
    obtain ⟨name, hc⟩ := mem_latestRuns.1 hc
    exact ⟨⟨name, c⟩, Table.mem_entries.2 (by rw [lookup_latestByName, hc]), rfl⟩

theorem ciFromNode_eq (node : GhPrNode) :
    ciFromNode node = aggregateCi ((latestRuns node.contexts).map contextToBucket) :=
  aggregateCi_congr fun _ => mem_buckets

/-- The aggregate of some runs, by priority. -/
def priorityState (runs : List CheckContext) : Option CiState :=
  if ∃ c ∈ runs, contextToBucket c = .fail ∨ contextToBucket c = .cancel then some .fail
  else if ∃ c ∈ runs, contextToBucket c = .actionRequired then some .actionRequired
  else if ∃ c ∈ runs, contextToBucket c = .pending then some .pending
  else none

theorem aggregateCi_map_contextToBucket (runs : List CheckContext) :
    aggregateCi (runs.map contextToBucket) = priorityState runs := by
  unfold aggregateCi priorityState
  simp only [List.any_eq_true, List.mem_map, exists_exists_and_eq_and, decide_eq_true_eq]

/-- `RunOf c name time` — a run of the check `name`, by its name or its context, that started or was
created at `time`, if it is known. -/
inductive RunOf : CheckContext → String → Option String → Prop
  | checkRun (name status : String) (conclusion startedAt : Option String) :
      RunOf (.checkRun name status conclusion startedAt) name startedAt
  | statusContext (context state : String) (createdAt : Option String) :
      RunOf (.statusContext context state createdAt) context createdAt

theorem RunOf.name_eq {c : CheckContext} {name : String} {time : Option String}
    (h : RunOf c name time) : c.name = some name := by
  cases h <;> rfl

/-- An unknown time counts as the empty string. -/
theorem RunOf.recency_eq {c : CheckContext} {name : String} {time : Option String}
    (h : RunOf c name time) : c.recency = time.getD "" := by
  cases h <;> rfl

theorem exists_runOf {c : CheckContext} {name : String} (h : c.name = some name) :
    ∃ time, RunOf c name time := by
  cases c with
  | checkRun name' status conclusion startedAt =>
    obtain rfl := Option.some.inj h
    exact ⟨_, .checkRun _ _ _ _⟩
  | statusContext context state createdAt =>
    obtain rfl := Option.some.inj h
    exact ⟨_, .statusContext _ _ _⟩
  | unknown => cases h

/-- The run that counts, in the list of all contexts. -/
theorem latestRun_eq_some {name : String} {contexts : List CheckContext} {c : CheckContext} :
    latestRun name contexts = some c ↔
      ∃ before after, contexts = before ++ c :: after ∧ c.name = some name ∧
        (∀ a ∈ before, a.name = some name → a.recency < c.recency) ∧
        ∀ a ∈ after, a.name = some name → a.recency ≤ c.recency := by
  rw [latestRun, argmax_eq_some_iff_append]
  constructor
  · rintro ⟨before, after, hsplit, hbefore, hafter⟩
    obtain ⟨l, r, rfl, rfl, hr⟩ := List.filter_eq_append_iff.1 hsplit
    obtain ⟨m, r, rfl, hm, hc, rfl⟩ := List.filter_eq_cons_iff.1 hr
    refine ⟨l ++ m, r, (List.append_assoc _ _ _).symm, of_decide_eq_true hc, ?_, ?_⟩
    · intro a ha hname
      rcases List.mem_append.1 ha with ha | ha
      · exact hbefore a (List.mem_filter.2 ⟨ha, decide_eq_true hname⟩)
      · exact absurd (decide_eq_true hname) (hm a ha)
    · exact fun a ha hname => hafter a (List.mem_filter.2 ⟨ha, decide_eq_true hname⟩)
  · rintro ⟨before, after, rfl, hc, hbefore, hafter⟩
    refine ⟨runsOf name before, runsOf name after, ?_, ?_, ?_⟩
    · rw [runsOf, List.filter_append, List.filter_cons_of_pos (by simpa using hc)]
      rfl
    · exact fun a ha => hbefore a (mem_runsOf.1 ha).1 (mem_runsOf.1 ha).2
    · exact fun a ha => hafter a (mem_runsOf.1 ha).1 (mem_runsOf.1 ha).2

/-- **The CI state is the priority aggregate of the runs that count**, in whatever order the table
lists them.  A run of a check counts when it started after all runs of that check listed before it,
and no later run of it is listed after it; an unknown time is the empty string. -/
theorem ciFromNode_latest (node : GhPrNode) :
    ciFromNode node = priorityState (latestRuns node.contexts) ∧
      (∀ t : Table String CheckContext,
        t.entries.Perm (latestByName node.contexts).entries →
        aggregateCi (t.entries.map fun x => contextToBucket x.2) =
          priorityState (latestRuns node.contexts)) ∧
      ∀ c, c ∈ latestRuns node.contexts ↔ ∃ name time before after,
        RunOf c name time ∧ node.contexts = before ++ c :: after ∧
          (∀ a ∈ before, ∀ t, RunOf a name t → t.getD "" < time.getD "") ∧
          ∀ a ∈ after, ∀ t, RunOf a name t → t.getD "" ≤ time.getD "" := by
  have hci := (ciFromNode_eq node).trans (aggregateCi_map_contextToBucket _)
  refine ⟨hci, fun t ht => (ciFromNode_eq_of_perm ht).trans hci, fun c => ?_⟩
  rw [mem_latestRuns]
  constructor
  · rintro ⟨name, hc⟩
    obtain ⟨before, after, hsplit, hname, hbefore, hafter⟩ := latestRun_eq_some.1 hc
    obtain ⟨time, hrun⟩ := exists_runOf hname
    refine ⟨name, time, before, after, hrun, hsplit, fun a ha t hat => ?_, fun a ha t hat => ?_⟩
    · rw [← hat.recency_eq, ← hrun.recency_eq]
      exact hbefore a ha hat.name_eq
    · rw [← hat.recency_eq, ← hrun.recency_eq]
      exact hafter a ha hat.name_eq
  · rintro ⟨name, time, before, after, hrun, hsplit, hbefore, hafter⟩
    refine ⟨name, latestRun_eq_some.2
      ⟨before, after, hsplit, hrun.name_eq, fun a ha hname => ?_, fun a ha hname => ?_⟩⟩
    · obtain ⟨t, hat⟩ := exists_runOf hname
      rw [hat.recency_eq, hrun.recency_eq]
      exact hbefore a ha t hat
    · obtain ⟨t, hat⟩ := exists_runOf hname
      rw [hat.recency_eq, hrun.recency_eq]
      exact hafter a ha t hat

/-! ## Equally recent runs -/

/-- How grave a state is. -/
def rank : Option CiState → ℕ
  | none => 0
  | some .pending => 1
  | some .actionRequired => 2
  | some .fail => 3

theorem rank_injective {st st' : Option CiState} (h : rank st = rank st') : st = st' := by
  revert h
  rcases st with _ | st <;> rcases st' with _ | st' <;> (try cases st) <;> (try cases st') <;> decide

/-- The state of a PR with this one run. -/
def stateOf (c : CheckContext) : Option CiState := aggregateCi [contextToBucket c]

theorem aggregateCi_cons (b : CheckBucket) (l : List CheckBucket) :
    rank (aggregateCi (b :: l)) = max (rank (aggregateCi [b])) (rank (aggregateCi l)) := by
  unfold aggregateCi
  simp only [List.any_cons, List.any_nil, Bool.or_false]
  rcases Bool.eq_false_or_eq_true (l.any fun b => decide (b = .fail ∨ b = .cancel)) with hf | hf <;>
    rcases Bool.eq_false_or_eq_true (l.any fun b => decide (b = .actionRequired)) with ha | ha <;>
    rcases Bool.eq_false_or_eq_true (l.any fun b => decide (b = .pending)) with hp | hp <;>
    simp only [hf, ha, hp] <;> cases b <;> decide

/-- The aggregate of some runs is the gravest of their states. -/
theorem rank_stateOf_le {runs : List CheckContext} {c : CheckContext} (hc : c ∈ runs) :
    rank (stateOf c) ≤ rank (aggregateCi (runs.map contextToBucket)) := by
  induction runs with
  | nil => cases hc
  | cons c' runs ih =>
    rw [List.map_cons, aggregateCi_cons]
    rcases List.mem_cons.1 hc with rfl | hc
    · exact le_max_left _ _
    · exact (ih hc).trans (le_max_right _ _)

theorem exists_stateOf_eq {runs : List CheckContext} {st : CiState}
    (h : aggregateCi (runs.map contextToBucket) = some st) : ∃ c ∈ runs, stateOf c = some st := by
  induction runs with
  | nil => cases h
  | cons c runs ih =>
    have hmax := aggregateCi_cons (contextToBucket c) (runs.map contextToBucket)
    rw [← List.map_cons, h] at hmax
    rcases max_choice (rank (aggregateCi [contextToBucket c]))
      (rank (aggregateCi (runs.map contextToBucket))) with heq | heq
    · exact ⟨c, List.mem_cons_self, (rank_injective (hmax.trans heq)).symm⟩
    · obtain ⟨c', hc', hst⟩ := ih (rank_injective (hmax.trans heq)).symm
      exact ⟨c', List.mem_cons_of_mem _ hc', hst⟩

/-- No run of the same check is more recent. -/
def MostRecent (contexts : List CheckContext) (c : CheckContext) : Prop :=
  c ∈ contexts ∧ c.name.isSome = true ∧ ∀ a ∈ contexts, a.name = c.name → a.recency ≤ c.recency

/-- The gravest state among the most recent runs is also the state of every most recent run of some
check, if it is a state at all: whichever of the equally recent runs are listed first, it counts. -/
def TiesAgree (contexts : List CheckContext) : Prop :=
  ∀ c, MostRecent contexts c → (stateOf c).isSome = true →
    (∀ a, MostRecent contexts a → rank (stateOf a) ≤ rank (stateOf c)) →
    ∃ c', MostRecent contexts c' ∧
      ∀ a, MostRecent contexts a → a.name = c'.name → stateOf a = stateOf c

instance (contexts : List CheckContext) (c : CheckContext) : Decidable (MostRecent contexts c) :=
  inferInstanceAs (Decidable (_ ∧ _))

theorem MostRecent.perm {l l' : List CheckContext} (h : l.Perm l') {c : CheckContext} :
    MostRecent l c ↔ MostRecent l' c := by
  unfold MostRecent
  simp only [h.mem_iff]

theorem mostRecent_of_latestRun {contexts : List CheckContext} {name : String} {c : CheckContext}
    (h : latestRun name contexts = some c) : MostRecent contexts c ∧ c.name = some name := by
  obtain ⟨hmem, hname⟩ := mem_runsOf.1 (List.argmax_mem h)
  refine ⟨⟨hmem, by simp [hname], fun a ha heq => ?_⟩, hname⟩
  exact List.le_of_mem_argmax (mem_runsOf.2 ⟨ha, heq.trans hname⟩) h

/-- The check of a most recent run has a run that counts, and that one is as recent. -/
theorem MostRecent.latestRun {contexts : List CheckContext} {c : CheckContext}
    (h : MostRecent contexts c) : ∃ name m, c.name = some name ∧
      latestRun name contexts = some m ∧ m.recency ≤ c.recency := by
  obtain ⟨hmem, hsome, hmax⟩ := h
  obtain ⟨name, hname⟩ := Option.isSome_iff_exists.1 hsome
  obtain ⟨m, hm, -⟩ := exists_argmax_eq_some (f := CheckContext.recency)
    (mem_runsOf.2 ⟨hmem, hname⟩)
  obtain ⟨hm', hname'⟩ := mostRecent_of_latestRun hm
  exact ⟨name, m, hname, hm, hmax m hm'.1 (hname'.trans hname.symm)⟩

/-- Runs that are equally recent and in one state agree, whatever the other checks are. -/
theorem tiesAgree_of_same {contexts : List CheckContext}
    (h : ∀ a c, MostRecent contexts a → MostRecent contexts c → a.name = c.name →
      stateOf a = stateOf c) : TiesAgree contexts :=
  fun c hc _ _ => ⟨c, hc, fun a ha hname => h a c ha hc hname⟩

theorem TiesAgree.perm {l l' : List CheckContext} (h : l.Perm l') (hl : TiesAgree l) :
    TiesAgree l' := by
  intro c hc hsome hmax
  obtain ⟨c', hc', hall⟩ := hl c ((MostRecent.perm h).2 hc) hsome
    fun a ha => hmax a ((MostRecent.perm h).1 ha)
  exact ⟨c', (MostRecent.perm h).1 hc', fun a ha => hall a ((MostRecent.perm h).2 ha)⟩

/-- Among most recent runs there is one whose state is the gravest. -/
theorem exists_gravest {contexts : List CheckContext} {c : CheckContext}
    (hc : MostRecent contexts c) : ∃ g, MostRecent contexts g ∧
      ∀ a, MostRecent contexts a → rank (stateOf a) ≤ rank (stateOf g) := by
  have hmem : ∀ {a}, MostRecent contexts a ↔ a ∈ contexts.filter fun a => MostRecent contexts a := by
    intro a
    rw [List.mem_filter, decide_eq_true_eq]
    exact ⟨fun h => ⟨h.1, h⟩, fun h => h.2⟩
  obtain ⟨g, hg, -⟩ := exists_argmax_eq_some (f := fun a => rank (stateOf a)) (hmem.1 hc)
  refine ⟨g, hmem.2 (List.argmax_mem hg), fun a ha => ?_⟩
  exact List.le_of_mem_argmax (f := fun a => rank (stateOf a)) (hmem.1 ha) hg

theorem stateOf_isSome_of_rank {c : CheckContext} (h : 0 < rank (stateOf c)) :
    (stateOf c).isSome = true := by
  cases hst : stateOf c with
  | none =>
    rw [hst] at h
    cases h
  | some st => rfl

/-- A run that counts has a share in the state. -/
theorem rank_stateOf_le_ciFromNode {node : GhPrNode} {name : String} {m : CheckContext}
    (h : latestRun name node.contexts = some m) :
    rank (stateOf m) ≤ rank (ciFromNode node) := by
  rw [ciFromNode_eq]
  exact rank_stateOf_le (mem_latestRuns.2 ⟨name, h⟩)

theorem exists_latestRun_of_ciFromNode {node : GhPrNode} (h : 0 < rank (ciFromNode node)) :
    ∃ name m, latestRun name node.contexts = some m ∧ stateOf m = ciFromNode node := by
  cases hci : ciFromNode node with
  | none =>
    rw [hci] at h
    cases h
  | some st =>
    rw [ciFromNode_eq] at hci
    obtain ⟨m, hm, hst⟩ := exists_stateOf_eq hci
    obtain ⟨name, hm⟩ := mem_latestRuns.1 hm
    exact ⟨name, m, hm, hst⟩

/-- Where the ties agree, another order of the checks gives no milder state. -/
theorem TiesAgree.rank_le {node node' : GhPrNode} (hties : TiesAgree node.contexts)
    (h : node'.contexts.Perm node.contexts) :
    rank (ciFromNode node) ≤ rank (ciFromNode node') := by
  rcases Nat.eq_zero_or_pos (rank (ciFromNode node)) with hzero | hpos
  · rw [hzero]
    exact Nat.zero_le _
  · obtain ⟨name, c, hc, hst⟩ := exists_latestRun_of_ciFromNode hpos
    have hrecent := (mostRecent_of_latestRun hc).1
    obtain ⟨g, hg, hmax⟩ := exists_gravest hrecent
    have hle := hmax c hrecent
    rw [hst] at hle
    obtain ⟨c', hc', hall⟩ := hties g hg (stateOf_isSome_of_rank (hpos.trans_le hle)) hmax
    -- the check of `c'` has the gravest state in whatever order it is listed
    obtain ⟨name', m, hname, hm, -⟩ := ((MostRecent.perm h).2 hc').latestRun
    obtain ⟨hm', hname'⟩ := mostRecent_of_latestRun hm
    rw [← hall m ((MostRecent.perm h).1 hm') (hname'.trans hname.symm)] at hle
    exact hle.trans (rank_stateOf_le_ciFromNode hm)

/-- The node with other checks. -/
def GhPrNode.withContexts (node : GhPrNode) (contexts : List CheckContext) : GhPrNode :=
  { node with
    commits := { nodes := [{ commit := { statusCheckRollup := some { contexts := ⟨contexts⟩ } } }] } }

theorem runsOf_append (name : String) (l l' : List CheckContext) :
    runsOf name (l ++ l') = runsOf name l ++ runsOf name l' := List.filter_append _ _

/-- When the runs of `l` are listed first, a most recent run among them brings the run that counts
into `l`. -/
theorem mem_of_latestRun_append {l l' : List CheckContext} {name : String} {m a : CheckContext}
    (h : latestRun name (l ++ l') = some m) (ha : a ∈ l) (hname : a.name = some name)
    (hle : m.recency ≤ a.recency) : m ∈ l := by
  rw [latestRun, runsOf_append] at h
  exact (mem_runsOf.1 (mem_left_of_argmax_append h (mem_runsOf.2 ⟨ha, hname⟩) hle)).1

/-- **When the order of the checks does not matter**: exactly when the equally recent runs agree. -/
theorem ciFromNode_perm_iff (node : GhPrNode) :
    (∀ node' : GhPrNode, node'.contexts.Perm node.contexts → ciFromNode node' = ciFromNode node) ↔
      TiesAgree node.contexts := by
  constructor
  · intro hsame c hc hsome hmax
    -- list the runs in the state of `c` first, and then last
    let p : CheckContext → Bool := fun a => stateOf a = stateOf c
    let l := node.contexts
    have hfirst := hsame (node.withContexts (l.filter p ++ l.filter fun a => !p a))
      (List.filter_append_perm p l)
    have hlast := hsame (node.withContexts ((l.filter fun a => !p a) ++ l.filter p))
      (List.perm_append_comm.trans (List.filter_append_perm p l))
    have hgrave : rank (stateOf c) ≤ rank (ciFromNode node) := by
      obtain ⟨name, m, hname, hm, hle⟩ :=
        ((MostRecent.perm (List.filter_append_perm p l)).2 hc).latestRun
      have hmem := mem_of_latestRun_append hm
        (List.mem_filter.2 ⟨hc.1, decide_eq_true rfl⟩) hname hle
      have hst : stateOf m = stateOf c := of_decide_eq_true (List.mem_filter.1 hmem).2
      rw [← hfirst, ← hst]
      exact rank_stateOf_le_ciFromNode hm
    have hpos : 0 < rank (stateOf c) := by
      obtain ⟨st, hst⟩ := Option.isSome_iff_exists.1 hsome
      rw [hst]
      cases st <;> decide
    rw [← hlast] at hgrave
    obtain ⟨name, m, hm, hst⟩ := exists_latestRun_of_ciFromNode (hpos.trans_le hgrave)
    have hperm : (((l.filter fun a => !p a) ++ l.filter p)).Perm l :=
      List.perm_append_comm.trans (List.filter_append_perm p l)
    obtain ⟨hrecent, hname⟩ := mostRecent_of_latestRun hm
    have hrecent : MostRecent l m := (MostRecent.perm hperm).1 hrecent
    rw [← hst] at hgrave
    have hmc : stateOf m = stateOf c := rank_injective (le_antisymm (hmax m hrecent) hgrave)
    refine ⟨m, hrecent, fun a ha heq => ?_⟩
    by_contra hne
    have hmem := mem_of_latestRun_append hm
      (List.mem_filter.2 ⟨ha.1, by simpa [p] using hne⟩) (heq.trans hname)
      (ha.2.2 m hrecent.1 heq.symm)
    have hnot := (List.mem_filter.1 hmem).2
    simp [p, hmc] at hnot
  · intro hties node' h
    exact rank_injective (le_antisymm ((hties.perm h.symm).rank_le h.symm) (hties.rank_le h))

/-! ### A check that failed and succeeded at no known time -/

namespace Tied

def failed : CheckContext := .checkRun "build" "COMPLETED" (some "FAILURE") none

def succeeded : CheckContext := .checkRun "build" "COMPLETED" (some "SUCCESS") none

def node : GhPrNode :=
  { number := 1, state := "OPEN", isDraft := false, mergeable := "MERGEABLE"
    mergeStateStatus := "CLEAN", reviewDecision := none, baseRefName := "main"
    headRefName := "topic", commits := { nodes := [] } }

end Tied

open Tied in
/-- Of two runs of one check without a time, the one listed first decides. -/
theorem not_ciFromNode_perm :
    (node.withContexts [failed, succeeded]).contexts.Perm
        (node.withContexts [succeeded, failed]).contexts ∧
      ciFromNode (node.withContexts [failed, succeeded]) = some .fail ∧
      ciFromNode (node.withContexts [succeeded, failed]) = none := by
  refine ⟨List.Perm.swap _ _ _, ?_, ?_⟩
  · decide
  · decide

end MergeReady.Evaluation
