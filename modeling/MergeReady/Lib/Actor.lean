import Mathlib.Data.List.Nodup
import Mathlib.Data.List.Infix
import Mathlib.Logic.Function.Basic
import Mathlib.Order.Basic
import MergeReady.Lib.Run

/-!
# An actor and its callers

One actor owns a state and takes commands from a bounded mailbox, one at a time.  Any number of callers
send commands and wait for the replies; a caller can be dropped at any time, and a handler can panic,
which ends the actor.  `Actors.Step` is one step of any of them, and `servedOf` reads off the events of
a run what the actor did.  The rules:

* `refines`: the actor's state is the one a sequential run of the served commands leads to;
* `fifo`: commands are served in the order they were sent, none lost and none twice;
* `served_of_received`, `served_before`: a caller has the reply to its own command, served between the
  call and the return;
* `served_of_ahead`, `settles`: a command waits for those ahead of it only, and never for good.
-/

namespace MergeReady.Lib

/-- What an actor does with a command: the next state and the reply, or a panic.  `ε` is what is read
from the surroundings at that moment; `stamped` says what a command may hold that its caller read
there. -/
structure Service (ε σ κ ρ : Type*) where
  start : σ
  capacity : ℕ
  stamped : ε → κ → Prop
  handle : ε → σ → κ → Option (σ × ρ)

/-- A command as it was served: who called, what was read from the surroundings, and the reply. -/
structure Served (ι ε κ ρ : Type*) where
  caller : ι
  cmd : κ
  env : ε
  reply : ρ

def Served.sent {ι ε κ ρ : Type*} (x : Served ι ε κ ρ) : ι × κ := (x.caller, x.cmd)

/-- Where a call is. -/
inductive CallState (κ ρ : Type*)
  | unused
  /-- waits for room in the mailbox -/
  | sending (cmd : κ)
  | waiting
  /-- the reply is there to be received -/
  | replied (r : ρ)
  | returned (r : ρ)
  /-- returned without a reply -/
  | failed
  /-- the caller was dropped -/
  | cancelled

inductive ActorEvent (ι ε κ ρ : Type*)
  | advance
  | call (i : ι) (cmd : κ)
  | send (i : ι) (cmd : κ)
  | serve (x : Served ι ε κ ρ)
  | crash
  | receive (i : ι) (r : ρ)
  | fail (i : ι)
  | cancel (i : ι)

structure Actors (ι ε σ κ ρ : Type*) where
  env : ε
  /-- `none` after a panic -/
  actor : Option σ
  mailbox : List (ι × κ)
  calls : ι → CallState κ ρ

variable {ι ε σ κ ρ : Type*}

/-- The command an event serves, and the message it sends. -/
def ActorEvent.served? : ActorEvent ι ε κ ρ → Option (Served ι ε κ ρ)
  | .serve x => some x
  | _ => none

def ActorEvent.sent? : ActorEvent ι ε κ ρ → Option (ι × κ)
  | .send i cmd => some (i, cmd)
  | _ => none

def servedOf (evs : List (ActorEvent ι ε κ ρ)) : List (Served ι ε κ ρ) :=
  evs.filterMap ActorEvent.served?

def sentOf (evs : List (ActorEvent ι ε κ ρ)) : List (ι × κ) := evs.filterMap ActorEvent.sent?

section Histories

variable (evs evs' : List (ActorEvent ι ε κ ρ)) (ev : ActorEvent ι ε κ ρ)

@[simp] theorem servedOf_nil : servedOf ([] : List (ActorEvent ι ε κ ρ)) = [] := rfl

@[simp] theorem sentOf_nil : sentOf ([] : List (ActorEvent ι ε κ ρ)) = [] := rfl

theorem servedOf_append : servedOf (evs ++ evs') = servedOf evs ++ servedOf evs' :=
  List.filterMap_append

theorem servedOf_snoc : servedOf (evs ++ [ev]) = servedOf evs ++ ev.served?.toList := by
  rw [servedOf_append]
  cases ev <;> rfl

theorem sentOf_snoc : sentOf (evs ++ [ev]) = sentOf evs ++ ev.sent?.toList := by
  rw [sentOf, List.filterMap_append]
  cases ev <;> rfl

@[simp] theorem mem_servedOf {evs : List (ActorEvent ι ε κ ρ)} {x : Served ι ε κ ρ} :
    x ∈ servedOf evs ↔ .serve x ∈ evs := by
  rw [servedOf, List.mem_filterMap]
  constructor
  · rintro ⟨ev, hev, h⟩
    cases ev with
    | serve y =>
      obtain rfl := Option.some.inj h
      exact hev
    | _ => cases h
  · intro h
    exact ⟨_, h, rfl⟩

@[simp] theorem mem_sentOf {evs : List (ActorEvent ι ε κ ρ)} {i : ι} {cmd : κ} :
    (i, cmd) ∈ sentOf evs ↔ .send i cmd ∈ evs := by
  rw [sentOf, List.mem_filterMap]
  constructor
  · rintro ⟨ev, hev, h⟩
    cases ev with
    | send j cmd' =>
      obtain ⟨rfl, rfl⟩ := Prod.mk.inj (Option.some.inj h)
      exact hev
    | _ => cases h
  · intro h
    exact ⟨_, h, rfl⟩

end Histories

def callersOf (msgs : List (ι × κ)) : List ι := msgs.map Prod.fst

namespace Service

variable (A : Service ε σ κ ρ)

/-- One command of a sequential run. -/
def SeqStep (s : σ) (x : Served ι ε κ ρ) (t : σ) : Prop :=
  A.handle x.env s x.cmd = some (t, x.reply)

/-- The system when the actor has just been started. -/
def init (ι : Type*) (e : ε) : Actors ι ε σ κ ρ :=
  { env := e, actor := some A.start, mailbox := [], calls := fun _ => .unused }

end Service

/-- A reply reaches the caller if it is still there. -/
def CallState.reply (r : ρ) : CallState κ ρ → CallState κ ρ
  | .waiting => .replied r
  | c => c

/-! ### Calls and their events -/

def ActorEvent.Other (i : ι) : ActorEvent ι ε κ ρ → Prop
  | .call j _ | .send j _ | .receive j _ | .fail j | .cancel j => j ≠ i
  | .serve x => x.caller ≠ i
  | .advance | .crash => True

/-- What the events of a run say about a call, by where it is. -/
inductive Tracks (evs : List (ActorEvent ι ε κ ρ)) (i : ι) : CallState κ ρ → Prop
  | unused (h : ∀ ev ∈ evs, ev.Other i) : Tracks evs i .unused
  | sending {cmd : κ} (hc : .call i cmd ∈ evs) (hs : ∀ cmd, .send i cmd ∉ evs) :
      Tracks evs i (.sending cmd)
  | waiting {cmd : κ} (hs : .send i cmd ∈ evs) (hv : ∀ x, .serve x ∈ evs → x.caller ≠ i) :
      Tracks evs i .waiting
  | replied {x : Served ι ε κ ρ} (hx : .serve x ∈ evs) (hi : x.caller = i) :
      Tracks evs i (.replied x.reply)
  | returned {x : Served ι ε κ ρ} (hx : .serve x ∈ evs) (hi : x.caller = i) :
      Tracks evs i (.returned x.reply)
  | failed : Tracks evs i .failed
  | cancelled : Tracks evs i .cancelled

theorem Tracks.other {evs : List (ActorEvent ι ε κ ρ)} {ev : ActorEvent ι ε κ ρ} {i : ι}
    {c : CallState κ ρ} (h : Tracks evs i c) (ho : ev.Other i) : Tracks (evs ++ [ev]) i c := by
  have hmem : ∀ {ev' : ActorEvent ι ε κ ρ}, ev' ∈ evs → ev' ∈ evs ++ [ev] := fun h =>
    List.mem_append_left _ h
  cases h with
  | unused h => exact .unused (List.forall_mem_append.2 ⟨h, List.forall_mem_singleton.2 ho⟩)
  | sending hc hs =>
    refine .sending (hmem hc) fun cmd hm => ?_
    rcases List.mem_append.1 hm with hm | hm
    · exact hs cmd hm
    · rw [← List.mem_singleton.1 hm] at ho
      exact ho rfl
  | waiting hs hv =>
    refine .waiting (hmem hs) fun x hm => ?_
    rcases List.mem_append.1 hm with hm | hm
    · exact hv x hm
    · rw [← List.mem_singleton.1 hm] at ho
      exact ho
  | replied hx hi => exact .replied (hmem hx) hi
  | returned hx hi => exact .returned (hmem hx) hi
  | failed => exact .failed
  | cancelled => exact .cancelled

section Steps

variable [Preorder ε] [DecidableEq ι] (A : Service ε σ κ ρ)

/-- One step of the surroundings, of a caller or of the actor. -/
inductive Actors.Step : Actors ι ε σ κ ρ → ActorEvent ι ε κ ρ → Actors ι ε σ κ ρ → Prop
  | advance {S e} (he : S.env ≤ e) : Step S .advance { S with env := e }
  | call {S i cmd} (hi : S.calls i = .unused) (hs : A.stamped S.env cmd) :
      Step S (.call i cmd) { S with calls := Function.update S.calls i (.sending cmd) }
  | send {S i cmd s} (hi : S.calls i = .sending cmd) (ha : S.actor = some s)
      (hroom : S.mailbox.length < A.capacity) :
      Step S (.send i cmd)
        { S with mailbox := S.mailbox ++ [(i, cmd)], calls := Function.update S.calls i .waiting }
  | serve {S i cmd rest s t r} (ha : S.actor = some s) (hm : S.mailbox = (i, cmd) :: rest)
      (hh : A.handle S.env s cmd = some (t, r)) :
      Step S (.serve ⟨i, cmd, S.env, r⟩)
        { S with actor := some t, mailbox := rest,
                 calls := Function.update S.calls i ((S.calls i).reply r) }
  | crash {S i cmd rest s} (ha : S.actor = some s) (hm : S.mailbox = (i, cmd) :: rest)
      (hh : A.handle S.env s cmd = none) : Step S .crash { S with actor := none, mailbox := [] }
  | receive {S i r} (hi : S.calls i = .replied r) :
      Step S (.receive i r) { S with calls := Function.update S.calls i (.returned r) }
  | fail {S i} (ha : S.actor = none) (hi : S.calls i = .waiting ∨ ∃ cmd, S.calls i = .sending cmd) :
      Step S (.fail i) { S with calls := Function.update S.calls i .failed }
  | cancel {S i} (hi : S.calls i = .waiting ∨ (∃ cmd, S.calls i = .sending cmd) ∨
        ∃ r, S.calls i = .replied r) :
      Step S (.cancel i) { S with calls := Function.update S.calls i .cancelled }

end Steps

section Rules

variable [Preorder ε] [DecidableEq ι] {A : Service ε σ κ ρ} {S T : Actors ι ε σ κ ρ}
  {evs pre post : List (ActorEvent ι ε κ ρ)} {ev : ActorEvent ι ε κ ρ} {i j : ι} {cmd : κ} {r : ρ}
  {e : ε}

/-! ### What the actor does -/

/-- **The actor is a sequential machine**: it is in the state that the served commands lead to, or it
has panicked after them. -/
theorem Actors.refines {s : σ} (hs : S.actor = some s) (hr : Run (Actors.Step A) S evs T) :
    ∃ t, Run A.SeqStep s (servedOf evs) t ∧ (T.actor = some t ∨ T.actor = none) := by
  refine Run.history (P := fun evs T => ∃ t, Run A.SeqStep s (servedOf evs) t ∧
    (T.actor = some t ∨ T.actor = none)) ⟨s, .nil s, .inl hs⟩ ?_ hr
  rintro evs T ev U - ⟨t, ht, hT⟩ hstep
  rw [servedOf_snoc]
  cases hstep with
  | serve ha _ hh =>
    rcases hT with hT | hT
    · obtain rfl := Option.some.inj (hT.symm.trans ha)
      exact ⟨_, ht.snoc hh, .inl rfl⟩
    · rw [hT] at ha
      cases ha
  | crash => exact ⟨t, by simpa [ActorEvent.served?] using ht, .inr rfl⟩
  | _ => exact ⟨t, by simpa [ActorEvent.served?] using ht, hT⟩

/-- **First in, first out**: what has been served, with what waits, is what was there and what has been
sent since; after a panic the rest is lost. -/
theorem Actors.fifo (hr : Run (Actors.Step A) S evs T) :
    (servedOf evs).map Served.sent ++ T.mailbox <+: S.mailbox ++ sentOf evs ∧
      (∀ t, T.actor = some t →
        (servedOf evs).map Served.sent ++ T.mailbox = S.mailbox ++ sentOf evs) := by
  refine Run.history (P := fun evs T => (servedOf evs).map Served.sent ++ T.mailbox <+:
    S.mailbox ++ sentOf evs ∧ (∀ t, T.actor = some t →
      (servedOf evs).map Served.sent ++ T.mailbox = S.mailbox ++ sentOf evs)) (by simp) ?_ hr
  rintro evs T ev U - ⟨hpre, heq⟩ hstep
  rw [servedOf_snoc, sentOf_snoc]
  cases hstep with
  | @send i cmd t hi ha =>
    have h : (servedOf evs).map Served.sent ++ (T.mailbox ++ [(i, cmd)]) =
        S.mailbox ++ (sentOf evs ++ [(i, cmd)]) := by
      rw [← List.append_assoc, heq t ha, List.append_assoc]
    simp [ActorEvent.served?, ActorEvent.sent?, h]
  | @serve i cmd rest t _ r ha hm =>
    have h := heq t ha
    rw [hm] at h
    simp [ActorEvent.served?, ActorEvent.sent?, Served.sent, ← h]
  | crash =>
    refine ⟨?_, nofun⟩
    simpa [ActorEvent.served?, ActorEvent.sent?] using (List.prefix_append _ _).trans hpre
  | _ => simpa [ActorEvent.served?, ActorEvent.sent?] using ⟨hpre, heq⟩

/-- A message is served once those ahead of it are, whatever else happens. -/
theorem Actors.served_of_ahead {front back : List (ι × κ)} (hr : Run (Actors.Step A) S evs T)
    (hm : S.mailbox = front ++ (i, cmd) :: back) (hn : front.length < (servedOf evs).length) :
    ∃ x, (servedOf evs)[front.length]? = some x ∧ x.caller = i ∧ x.cmd = cmd := by
  obtain ⟨rest, hrest⟩ := (List.prefix_append _ _).trans (fifo hr).1
  have hat := congrArg (fun l => l[front.length]?) hrest
  rw [hm] at hat
  simp only [List.append_assoc, List.getElem?_append_right (Nat.le_refl _), Nat.sub_self,
    List.cons_append, List.getElem?_cons_zero] at hat
  rw [List.getElem?_append_left (by simpa using hn), List.getElem?_map,
    List.getElem?_eq_getElem hn] at hat
  exact ⟨_, List.getElem?_eq_getElem hn, Prod.mk.inj (Option.some.inj hat)⟩

/-! ### The surroundings -/

theorem Actors.env_le (hr : Run (Actors.Step A) S evs T) : S.env ≤ T.env := by
  refine Run.invariant (P := fun T => S.env ≤ T.env) ?_ hr le_rfl
  rintro T ev U h hstep
  cases hstep with
  | advance he => exact h.trans he
  | _ => exact h

/-- The readings of the served commands do not go back. -/
theorem Actors.served_env (hr : Run (Actors.Step A) S evs T) :
    (∀ x ∈ servedOf evs, S.env ≤ x.env ∧ x.env ≤ T.env) ∧
      (servedOf evs).Pairwise fun x y => x.env ≤ y.env := by
  refine Run.history (P := fun evs T => (∀ x ∈ servedOf evs, S.env ≤ x.env ∧ x.env ≤ T.env) ∧
    (servedOf evs).Pairwise fun x y => x.env ≤ y.env) (by simp) ?_ hr
  rintro evs T ev U hT ⟨hall, hpair⟩ hstep
  have hTU : T.env ≤ U.env := env_le (Run.single_iff.2 hstep)
  have hall' : ∀ x ∈ servedOf evs, S.env ≤ x.env ∧ x.env ≤ U.env := fun x hx =>
    ⟨(hall x hx).1, (hall x hx).2.trans hTU⟩
  rw [servedOf_snoc]
  cases hstep with
  | serve =>
    constructor
    · intro x hx
      rcases List.mem_append.1 hx with hx | hx
      · exact hall' x hx
      · obtain rfl := List.mem_singleton.1 hx
        exact ⟨env_le hT, le_rfl⟩
    · refine List.pairwise_append.2 ⟨hpair, List.pairwise_singleton _ _, ?_⟩
      intro x hx y hy
      obtain rfl := List.mem_singleton.1 hy
      exact (hall x hx).2
  | _ =>
    simp only [ActorEvent.served?, Option.toList_none, List.append_nil]
    exact ⟨hall', hpair⟩

/-! ### Calls -/

theorem Actors.sent_of_served (hr : Run (Actors.Step A) (A.init ι e) evs S) {x : Served ι ε κ ρ}
    (hx : .serve x ∈ evs) : .send x.caller x.cmd ∈ evs := by
  have hpre := ((List.prefix_append _ _).trans (fifo hr).1).subset
    (List.mem_map_of_mem (mem_servedOf.2 hx))
  exact mem_sentOf.1 hpre

theorem Actors.sent_of_mailbox (hr : Run (Actors.Step A) (A.init ι e) evs S)
    (hm : (i, cmd) ∈ S.mailbox) : .send i cmd ∈ evs :=
  mem_sentOf.1 ((fifo hr).1.subset (List.mem_append_right _ hm))

theorem Actors.Step.calls_of_other (h : Actors.Step A S ev T) (ho : ev.Other i) :
    T.calls i = S.calls i := by
  cases h with
  | advance => rfl
  | crash => rfl
  | _ => exact Function.update_of_ne (Ne.symm ho) _ _

/-- **The events of a run account for every call.** -/
theorem Actors.tracks (hr : Run (Actors.Step A) (A.init ι e) evs S) (i : ι) :
    Tracks evs i (S.calls i) := by
  refine Run.history (P := fun evs S => Tracks evs i (S.calls i)) ?_ ?_ hr
  · exact .unused (by simp)
  intro evs S ev T hS h hstep
  by_cases ho : ev.Other i
  · rw [hstep.calls_of_other ho]
    exact h.other ho
  have hlast : ev ∈ evs ++ [ev] := List.mem_append_right _ List.mem_cons_self
  cases hstep with
  | advance => exact absurd trivial ho
  | crash => exact absurd trivial ho
  | @call j cmd hj =>
    obtain rfl := not_not.1 ho
    simp only [Function.update_self]
    rw [hj] at h
    cases h with
    | unused h =>
      refine .sending hlast fun cmd' hm => ?_
      rcases List.mem_append.1 hm with hm | hm
      · exact h _ hm rfl
      · simp at hm
  | @send j cmd _ hj =>
    obtain rfl := not_not.1 ho
    simp only [Function.update_self]
    rw [hj] at h
    cases h with
    | sending hc hs =>
      refine .waiting hlast fun x hm hx => ?_
      rcases List.mem_append.1 hm with hm | hm
      · exact hs _ (hx ▸ sent_of_served hS hm)
      · simp at hm
  | @serve j cmd rest _ _ r _ hm =>
    obtain rfl : j = i := not_not.1 ho
    simp only [Function.update_self]
    have hsent : .send j cmd ∈ evs := sent_of_mailbox hS (hm ▸ List.mem_cons_self)
    generalize S.calls j = c at h
    cases h with
    | unused h => exact absurd rfl (h _ hsent)
    | sending _ hs => exact absurd hsent (hs _)
    | waiting => exact .replied hlast rfl
    | replied hx hi => exact .replied (List.mem_append_left _ hx) hi
    | returned hx hi => exact .returned (List.mem_append_left _ hx) hi
    | failed => exact .failed
    | cancelled => exact .cancelled
  | @receive j r hj =>
    obtain rfl := not_not.1 ho
    simp only [Function.update_self]
    rw [hj] at h
    cases h with
    | replied hx hi => exact .returned (List.mem_append_left _ hx) hi
  | @fail j =>
    obtain rfl := not_not.1 ho
    simp only [Function.update_self]
    exact .failed
  | @cancel j =>
    obtain rfl := not_not.1 ho
    simp only [Function.update_self]
    exact .cancelled

theorem Actors.called_of_sent (hr : Run (Actors.Step A) (A.init ι e) evs S)
    (h : .send i cmd ∈ evs) : .call i cmd ∈ evs := by
  refine Run.history (P := fun evs S => ∀ i cmd, .send i cmd ∈ evs → .call i cmd ∈ evs) ?_ ?_ hr
    i cmd h
  · simp
  intro evs S ev T hS h hstep i cmd hm
  rcases List.mem_append.1 hm with hm | hm
  · exact List.mem_append_left _ (h i cmd hm)
  · obtain rfl := List.mem_singleton.1 hm
    cases hstep with
    | send hi =>
      have htr := tracks hS i
      rw [hi] at htr
      cases htr with
      | sending hc => exact List.mem_append_left _ hc

theorem Actors.call_unique {cmd' : κ} (hr : Run (Actors.Step A) (A.init ι e) evs S)
    (h : .call i cmd ∈ evs) (h' : .call i cmd' ∈ evs) : cmd = cmd' := by
  refine Run.history (P := fun evs S => ∀ i cmd cmd', .call i cmd ∈ evs → .call i cmd' ∈ evs →
    cmd = cmd') (by simp) ?_ hr i cmd cmd' h h'
  intro evs S ev T hS h hstep i cmd cmd' hm hm'
  have hfresh : ∀ c c', ev = .call i c → .call i c' ∉ evs := by
    rintro c c' rfl hold
    have htr := tracks hS i
    cases hstep with
    | call hi =>
      rw [hi] at htr
      cases htr with
      | unused hother => exact hother _ hold rfl
  rcases List.mem_append.1 hm with hm | hm
  · rcases List.mem_append.1 hm' with hm' | hm'
    · exact h i cmd cmd' hm hm'
    · exact absurd hm (hfresh _ _ (List.mem_singleton.1 hm').symm)
  · have hev := (List.mem_singleton.1 hm).symm
    rcases List.mem_append.1 hm' with hm' | hm'
    · exact absurd hm' (hfresh _ _ hev)
    · rw [hev, List.mem_singleton, ActorEvent.call.injEq] at hm'
      exact hm'.2.symm

theorem Actors.sent_nodup (hr : Run (Actors.Step A) (A.init ι e) evs S) :
    (callersOf (sentOf evs)).Nodup := by
  refine Run.history (P := fun evs _ => (callersOf (sentOf evs)).Nodup) List.nodup_nil ?_ hr
  intro evs S ev T hS h hstep
  rw [sentOf_snoc]
  cases hstep with
  | @send i cmd _ hi =>
    have htr := tracks hS i
    rw [hi] at htr
    cases htr with
    | sending _ hs =>
      rw [callersOf, List.map_append]
      refine List.nodup_append.2 ⟨h, List.nodup_singleton _, ?_⟩
      rintro _ hj _ hi' rfl
      obtain ⟨⟨j, cmd'⟩, hm, rfl⟩ := List.mem_map.1 hj
      obtain rfl : j = i := List.mem_singleton.1 hi'
      exact hs _ (mem_sentOf.1 hm)
  | _ => simpa [ActorEvent.sent?] using h

/-- **Every command is served at most once.** -/
theorem Actors.served_nodup (hr : Run (Actors.Step A) (A.init ι e) evs S) :
    ((servedOf evs).map Served.caller).Nodup := by
  have hpre := (List.prefix_append _ _).trans (fifo hr).1
  have h := (hpre.sublist.map Prod.fst).nodup (sent_nodup hr)
  rwa [List.map_map] at h

/-- A reply that a caller has received was given to its own command. -/
theorem Actors.served_of_received (hr : Run (Actors.Step A) (A.init ι e) evs S)
    (h : .receive i r ∈ evs) :
    ∃ x ∈ servedOf evs, x.caller = i ∧ x.reply = r ∧ .call i x.cmd ∈ evs := by
  obtain ⟨pre, post, rfl⟩ := List.append_of_mem h
  obtain ⟨U, hU, hpost⟩ := Run.append_iff.1 hr
  obtain ⟨V, hstep, -⟩ := Run.cons_iff.1 hpost
  have htr := tracks hU i
  cases hstep with
  | receive hi =>
    rw [hi] at htr
    cases htr with
    | @replied x hx hxi =>
      subst hxi
      refine ⟨x, mem_servedOf.2 (List.mem_append_left _ hx), rfl, rfl, ?_⟩
      exact List.mem_append_left _ (called_of_sent hU (sent_of_served hU hx))

/-- **Real time is respected**: a command whose reply was received before another call was made is
served before that call's. -/
theorem Actors.served_before (hr : Run (Actors.Step A) (A.init ι e) (pre ++ .call j cmd :: post) S)
    (h : .receive i r ∈ pre) :
    (∃ x ∈ servedOf pre, x.caller = i ∧ x.reply = r) ∧ ∀ x ∈ servedOf pre, x.caller ≠ j := by
  obtain ⟨U, hU, hpost⟩ := Run.append_iff.1 hr
  obtain ⟨V, hstep, -⟩ := Run.cons_iff.1 hpost
  constructor
  · obtain ⟨x, hx, hxi, hxr, -⟩ := served_of_received hU h
    exact ⟨x, hx, hxi, hxr⟩
  · intro x hx
    have htr := tracks hU j
    cases hstep with
    | call hj =>
      rw [hj] at htr
      cases htr with
      | unused hother => exact hother _ (mem_servedOf.1 hx)

/-- A command holds what its caller read from the surroundings, no later than it is served. -/
theorem Actors.stamped_of_served (hr : Run (Actors.Step A) (A.init ι e) evs S)
    {x : Served ι ε κ ρ} (hx : x ∈ servedOf evs) : ∃ e₀ ≤ x.env, A.stamped e₀ x.cmd := by
  refine (Run.history (P := fun evs S =>
    (∀ i cmd, .call i cmd ∈ evs → ∃ e₀ ≤ S.env, A.stamped e₀ cmd) ∧
      ∀ x : Served ι ε κ ρ, .serve x ∈ evs → ∃ e₀ ≤ x.env, A.stamped e₀ x.cmd)
    ⟨by simp, by simp⟩ ?_ hr).2 x (mem_servedOf.1 hx)
  intro evs S ev T hS ⟨hcall, hserve⟩ hstep
  have hle := env_le (Run.single_iff.2 hstep)
  constructor
  · intro i cmd hm
    rcases List.mem_append.1 hm with hm | hm
    · obtain ⟨e₀, he, hst⟩ := hcall i cmd hm
      exact ⟨e₀, he.trans hle, hst⟩
    · obtain rfl := List.mem_singleton.1 hm
      cases hstep with
      | call _ hst => exact ⟨_, le_rfl, hst⟩
  · intro x hm
    rcases List.mem_append.1 hm with hm | hm
    · exact hserve x hm
    · obtain rfl := List.mem_singleton.1 hm
      cases hstep with
      | serve _ hbox =>
        exact hcall _ _ (called_of_sent hS (sent_of_mailbox hS (hbox ▸ List.mem_cons_self)))

/-- An actor ends when its handler panics on a command that was sent to it. -/
theorem Actors.panicked (hr : Run (Actors.Step A) (A.init ι e) evs S) (h : S.actor = none) :
    ∃ i cmd e' s, .send i cmd ∈ evs ∧ A.handle e' s cmd = none := by
  refine Run.history (P := fun evs S => S.actor = none → ∃ i cmd e' s, .send i cmd ∈ evs ∧
    A.handle e' s cmd = none) ?_ ?_ hr h
  · intro h
    cases h
  intro evs S ev T hS ih hstep hT
  have hold : S.actor = none → ∃ i cmd e' s, .send i cmd ∈ evs ++ [ev] ∧
      A.handle e' s cmd = none := fun h => by
    obtain ⟨i, cmd, e', s, hs, hh⟩ := ih h
    exact ⟨i, cmd, e', s, List.mem_append_left _ hs, hh⟩
  cases hstep with
  | serve => cases hT
  | crash _ hm hh =>
    have hsent := sent_of_mailbox hS (hm ▸ List.mem_cons_self)
    exact ⟨_, _, _, _, List.mem_append_left _ hsent, hh⟩
  | _ => exact hold hT

/-! ### Waiting -/

theorem Actors.mailbox_le (hr : Run (Actors.Step A) (A.init ι e) evs S) :
    S.mailbox.length ≤ A.capacity := by
  refine Run.invariant (P := fun S => S.mailbox.length ≤ A.capacity) ?_ hr (Nat.zero_le _)
  intro S ev T h hstep
  cases hstep with
  | send _ _ hroom => simpa [Nat.succ_le_iff] using hroom
  | serve _ hm =>
    rw [hm, List.length_cons] at h
    exact (Nat.le_succ _).trans h
  | crash => exact Nat.zero_le _
  | _ => exact h

/-- While the actor runs, the command of a waiting caller is in the mailbox. -/
theorem Actors.mem_mailbox_of_waiting (hr : Run (Actors.Step A) (A.init ι e) evs S) {s : σ}
    (ha : S.actor = some s) (hi : S.calls i = .waiting) : ∃ cmd, (i, cmd) ∈ S.mailbox := by
  have htr := tracks hr i
  rw [hi] at htr
  cases htr with
  | @waiting cmd hs hv =>
    have hm := mem_sentOf.2 hs
    rw [show sentOf evs = _ from ((fifo hr).2 s ha).symm] at hm
    rcases List.mem_append.1 hm with hm | hm
    · obtain ⟨x, hx, hxi⟩ := List.mem_map.1 hm
      exact absurd (congrArg Prod.fst hxi) (hv x (mem_servedOf.1 hx))
    · exact ⟨cmd, hm⟩

/-- **A waiting caller is served after as many commands as the mailbox holds**, whatever others do. -/
theorem Actors.served_within (hr : Run (Actors.Step A) (A.init ι e) pre S)
    (hi : S.calls i = .waiting) {s : σ} (ha : S.actor = some s)
    (hpost : Run (Actors.Step A) S post T) (hn : A.capacity ≤ (servedOf post).length) :
    ∃ x ∈ servedOf post, x.caller = i := by
  obtain ⟨cmd, hm⟩ := mem_mailbox_of_waiting hr ha hi
  obtain ⟨front, back, hbox⟩ := List.append_of_mem hm
  have hlen : front.length < (servedOf post).length := by
    have hle := mailbox_le hr
    rw [hbox, List.length_append, List.length_cons] at hle
    omega
  obtain ⟨x, hx, hxi, -⟩ := served_of_ahead hpost hbox hlen
  exact ⟨x, List.mem_of_getElem? hx, hxi⟩

/-- An event that brings a call forward. -/
def ActorEvent.Forward : ActorEvent ι ε κ ρ → Prop
  | .send _ _ | .serve _ | .crash | .fail _ => True
  | _ => False

variable (A S i) in
/-- Steps forward alone, finitely many, bring the call to its reply or to its failure. -/
def Actors.Settles : Prop :=
  ∃ post T, Run (Actors.Step A) S post T ∧ (∀ ev ∈ post, ev.Forward) ∧
    ((∃ r, T.calls i = .replied r) ∨ T.calls i = .failed)

theorem Actors.Settles.step (h : Actors.Step A S ev T) (hf : ev.Forward) (ht : T.Settles A i) :
    S.Settles A i := by
  obtain ⟨post, U, hpost, hforward, hend⟩ := ht
  exact ⟨ev :: post, U, .cons h hpost, List.forall_mem_cons.2 ⟨hf, hforward⟩, hend⟩

theorem Actors.settles_of_replied (h : S.calls i = .replied r) : S.Settles A i :=
  ⟨[], S, .nil S, List.forall_mem_nil _, .inl ⟨r, h⟩⟩

theorem Actors.settles_of_gone (ha : S.actor = none)
    (hi : S.calls i = .waiting ∨ ∃ cmd, S.calls i = .sending cmd) : S.Settles A i := by
  have hstep : Actors.Step A S (.fail i) _ := .fail ha hi
  exact ⟨[.fail i], _, Run.single_iff.2 hstep, List.forall_mem_singleton.2 trivial,
    .inr (Function.update_self ..)⟩

/-- A call whose command is in the mailbox is answered once those ahead of it are, or fails with
them. -/
theorem Actors.settles_of_mem {s : σ} (ha : S.actor = some s) (hi : S.calls i = .waiting)
    (hm : (i, cmd) ∈ S.mailbox) : S.Settles A i := by
  generalize hbox : S.mailbox = box at hm
  induction box generalizing S s with
  | nil => cases hm
  | cons head rest ih =>
    obtain ⟨j, cmd'⟩ := head
    cases hh : A.handle S.env s cmd' with
    | none => exact .step (.crash ha hbox hh) trivial (settles_of_gone rfl (.inl hi))
    | some out =>
      refine .step (.serve ha hbox hh) trivial ?_
      by_cases hj : i = j
      · subst hj
        refine settles_of_replied (r := out.2) ?_
        simp only [Function.update_self, hi, CallState.reply]
      · have hrest : (i, cmd) ∈ rest :=
          (List.mem_cons.1 hm).resolve_left fun h => hj (Prod.mk.inj h).1
        exact ih rfl ((Function.update_of_ne hj _ _).trans hi) rfl hrest

theorem Actors.settles_of_room {s : σ} (ha : S.actor = some s) (hi : S.calls i = .sending cmd)
    (hroom : S.mailbox.length < A.capacity) : S.Settles A i :=
  .step (.send hi ha hroom) trivial
    (settles_of_mem ha (Function.update_self ..) (List.mem_append_right _ List.mem_cons_self))

/-- **No caller is stuck**: whatever has happened, a call that waits for room or for its reply can
still be brought to its end, by serving and sending alone. -/
theorem Actors.settles (hcap : 0 < A.capacity) (hr : Run (Actors.Step A) (A.init ι e) evs S)
    (hi : S.calls i = .waiting ∨ ∃ cmd, S.calls i = .sending cmd) : S.Settles A i := by
  cases ha : S.actor with
  | none => exact settles_of_gone ha hi
  | some s =>
    rcases hi with hi | ⟨cmd, hi⟩
    · obtain ⟨cmd, hm⟩ := mem_mailbox_of_waiting hr ha hi
      exact settles_of_mem ha hi hm
    have hle := mailbox_le hr
    cases hbox : S.mailbox with
    | nil => exact settles_of_room ha hi (by rw [hbox]; exact hcap)
    | cons head rest =>
      -- one command served makes room
      rw [hbox, List.length_cons] at hle
      cases hh : A.handle S.env s head.2 with
      | none => exact .step (.crash ha hbox hh) trivial (settles_of_gone rfl (.inr ⟨cmd, hi⟩))
      | some out =>
        refine .step (.serve ha hbox hh) trivial
          (settles_of_room rfl (?_ : _ = CallState.sending cmd) hle)
        by_cases hj : i = head.1
        · subst hj
          simp only [Function.update_self, hi, CallState.reply]
        · exact (Function.update_of_ne hj _ _).trans hi

/-! ### Every sequential run is possible -/

/-- A call made when nothing waits, at `e`, is served next, at `x.env`. -/
theorem Actors.exists_run_alone (hcap : 0 < A.capacity) {x : Served ι ε κ ρ} {s t : σ}
    (hx : A.SeqStep s x t) (hs : S.actor = some s) (hm : S.mailbox = [])
    (hi : S.calls x.caller = .unused) (he : S.env ≤ e) (hst : A.stamped e x.cmd)
    (hle : e ≤ x.env) :
    ∃ evs T, Run (Actors.Step A) S evs T ∧ servedOf evs = [x] ∧ .call x.caller x.cmd ∈ evs ∧
      .receive x.caller x.reply ∈ evs ∧ T.actor = some t ∧ T.mailbox = [] ∧ T.env = x.env ∧
      ∀ j, j ≠ x.caller → T.calls j = S.calls j := by
  obtain ⟨i, cmd, e', r⟩ := x
  refine ⟨[.advance, .call i cmd, .send i cmd, .advance, .serve ⟨i, cmd, e', r⟩, .receive i r], _,
    .cons (.advance he) (.cons (.call hi hst) (.cons
      (.send (Function.update_self ..) hs (by rw [hm]; exact hcap)) (.cons (.advance hle) (.cons
        (.serve hs (show _ = (i, cmd) :: [] by simp [hm]) hx) (.cons (.receive ?_) (.nil _)))))),
    rfl, by simp, by simp, rfl, rfl, rfl, ?_⟩
  · simp [CallState.reply]
  · intro j hj
    simp [Function.update_of_ne hj]

/-- **Every sequential run is a run of the system**, with every caller answered, whenever each command
is stamped between the command before it and its own service. -/
theorem Actors.exists_run_of_seq (hcap : 0 < A.capacity) {served : List (Served ι ε κ ρ)} {s t : σ}
    (stampedAt : Served ι ε κ ρ → ε)
    (hr : Run A.SeqStep s served t) (hs : S.actor = some s) (hm : S.mailbox = [])
    (hfresh : ∀ x ∈ served, S.calls x.caller = .unused) (hle : ∀ x ∈ served, S.env ≤ stampedAt x)
    (hnodup : (served.map Served.caller).Nodup)
    (hpair : served.Pairwise fun x y => x.env ≤ stampedAt y)
    (hst : ∀ x ∈ served, A.stamped (stampedAt x) x.cmd ∧ stampedAt x ≤ x.env) :
    ∃ evs T, Run (Actors.Step A) S evs T ∧ servedOf evs = served ∧ T.actor = some t ∧
      T.mailbox = [] ∧ ∀ x ∈ served, .call x.caller x.cmd ∈ evs ∧ .receive x.caller x.reply ∈ evs := by
  induction hr generalizing S with
  | nil s => exact ⟨[], S, .nil S, rfl, hs, hm, nofun⟩
  | @cons s u t x xs hx _ ih =>
    rw [List.map_cons, List.nodup_cons] at hnodup
    rw [List.pairwise_cons] at hpair
    rw [List.forall_mem_cons] at hfresh hle hst
    obtain ⟨evs, U, hU, hserved, hcall, hrecv, hactor, hbox, henv, hcalls⟩ :=
      exists_run_alone hcap hx hs hm hfresh.1 hle.1 hst.1.1 hst.1.2
    have hne : ∀ y ∈ xs, y.caller ≠ x.caller := fun y hy heq =>
      hnodup.1 (heq ▸ List.mem_map_of_mem hy)
    obtain ⟨evs', T, hT, hserved', hactor', hbox', hall⟩ := ih hactor hbox
      (fun y hy => (hcalls _ (hne y hy)).trans (hfresh.2 y hy))
      (fun y hy => henv.le.trans (hpair.1 y hy)) hnodup.2 hpair.2 hst.2
    refine ⟨evs ++ evs', T, Run.append_iff.2 ⟨U, hU, hT⟩, ?_, hactor', hbox', ?_⟩
    · rw [servedOf_append, hserved, hserved', List.singleton_append]
    · intro y hy
      rcases List.mem_cons.1 hy with rfl | hy
      · exact ⟨List.mem_append_left _ hcall, List.mem_append_left _ hrecv⟩
      · exact ⟨List.mem_append_right _ (hall y hy).1, List.mem_append_right _ (hall y hy).2⟩

end Rules

end MergeReady.Lib
