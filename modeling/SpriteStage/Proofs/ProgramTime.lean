import SpriteStage.Proofs.Bills
import SpriteStage.Proofs.Timing
/-!
# Program time adds up

The run of an actor that is alone waits for nobody: it takes its turns at once and sleeps as long
as its blocks ask for. So at every moment the time of its next turn, together with what is left
then of the block in which it sleeps, is the time at which it set out and the bill up to now.
-/
namespace SpriteStage

open Exact

variable {α : Type} [Scalar α] [Exact α]

/-! ## A run that is suspended -/

/-- A run that set out at some time in a world, alone, has told `out` since and is suspended until another time. It
has some of its program ahead, and the block in which it sleeps will be through when all that is on the bill is
paid. -/
structure Place.Suspends (start : World α) (since : ℚ) (a : Actor α) (out : List (Signal α)) (w : World α) (wake : ℚ)
    (place : Place α) : Prop where
  frame : World.SameFrame start w
  alone : ∃ b, w.store.actors = [b] ∧ b.program = a.program ∧ b.lasting = (a.heard out).lasting
  due : place.Ends (value start.settings.frameInterval) wake (since + start.settings.bill a out)
  ahead : marks a.id out ++ place.ahead start.catalog a.program = Program.itinerary start.catalog a.program

/-- A run that has gone through the whole program of its actor in the time that is on the bill. -/
structure PaidOff (start : World α) (since : ℚ) (a : Actor α) (out : List (Signal α)) (now : ℚ) : Prop where
  whole : marks a.id out = Program.itinerary start.catalog a.program
  paid : now = since + start.settings.bill a out

/-- How such a run is accounted for where an activity ends. -/
def Halt.Accounts (start : World α) (since : ℚ) (a : Actor α) (out : List (Signal α)) (w : World α) (now : α) :
    Halt α → Prop
  | .sleep seconds place => place.Suspends start since a out w (value (wakeTime now seconds))
  | .pass place => place.Suspends start since a out w (value now)
  | .done .completed => PaidOff start since a out (value now)
  | .done _ => True

private theorem Place.Suspends.knows {start w : World α} {since wake : ℚ} {a : Actor α} {out : List (Signal α)}
    {place : Place α} (h : place.Suspends start since a out w wake) : w.Knows (a.heard out) := by
  obtain ⟨b, hactors, -, hknown⟩ := h.alone
  have hid : b.id = a.id := by simpa using congrArg Actor.id hknown
  refine ⟨b, ?_, hknown⟩
  rw [a.heard_id, ← hid]
  exact Store.get?_of_alone hactors

/-- A resumption keeps the account, and whoever is alone stays on the stage. -/
theorem Place.resume_accounts [Exacting α] {start w : World α} (hinterval : 0 < value start.settings.frameInterval)
    {since : ℚ} {a : Actor α} {out : List (Signal α)} {now : α} {place : Place α}
    (h : place.Suspends start since a out w (value now)) :
    (place.resume now a.id w).world.Knows (a.heard (out ++ (place.resume now a.id w).out)) ∧
    (place.resume now a.id w).halt.Accounts start since a (out ++ (place.resume now a.id w).out)
      (place.resume now a.id w).world now := by
  obtain ⟨b, hactors, hprogram, hknown⟩ := h.alone
  have hid : b.id = a.id := by simpa using congrArg Actor.id hknown
  have hpasses := place.passesBy_alone hactors
  -- The actor stays alone, and all that it does is told.
  obtain ⟨b', halone, -, hprogram'⟩ := Stage.resume_alone hactors now place
  rw [hid] at halone
  have hknows := h.knows.updates (Place.resume_updates now a.id w hpasses)
  rw [← a.heard_append] at hknows
  obtain ⟨c, hget, hknown'⟩ := id hknows
  rw [a.heard_id] at hget
  cases Store.eq_of_alone halone hget
  have hframe := h.frame.trans (Place.frame_resume now a.id w place)
  have hthere : ∃ b, (place.resume now a.id w).world.store.actors = [b] ∧ b.program = a.program ∧
      b.lasting = (a.heard (out ++ (place.resume now a.id w).out)).lasting :=
    ⟨b', halone, hprogram'.trans hprogram, hknown'⟩
  have hkeeps := Place.resume_keeps now a.id place h.frame.catalog fun c hc => by
    cases hget.symm.trans hc
    exact hprogram'.trans hprogram
  have hpays := Place.resume_pays hinterval h.frame.settings h.knows hpasses h.due
  rw [Activity.Pays, a.heard_id, add_assoc, ← Settings.bill_append] at hpays
  unfold Activity.Keeps at hkeeps
  refine ⟨hknows, ?_⟩
  generalize place.resume now a.id w = x at hframe hthere hpays hkeeps ⊢
  -- What has been told and what is ahead make up the itinerary, after the resumption as before it.
  have hahead : ∀ {ahead}, marks a.id x.out ++ ahead = place.ahead start.catalog a.program →
      marks a.id (out ++ x.out) ++ ahead = Program.itinerary start.catalog a.program := by
    intro ahead h'
    rw [marks_append, List.append_assoc, h', h.ahead]
  cases hhalt : x.halt with
  | sleep seconds place' =>
    rw [hhalt] at hpays hkeeps
    exact ⟨hframe, hthere, hpays, hahead hkeeps⟩
  | pass place' =>
    rw [hhalt] at hpays hkeeps
    exact ⟨hframe, hthere, hpays, hahead hkeeps⟩
  | done outcome =>
    cases outcome with
    | completed =>
      rw [hhalt] at hpays hkeeps
      exact ⟨(List.append_nil _).symm.trans (hahead ((List.append_nil _).trans hkeeps)), hpays⟩
    | idle | running | cancelled => trivial

namespace Stage

/-! ## A run on its stage -/

/-- The only task of a stage, with the time of its next turn: it is ready now, or it sleeps until a time to come. -/
inductive Waits (s : Stage α) (t : Task α) : ℚ → Prop where
  | ready (ready : s.ready = [t]) (sleepers : s.sleepers = []) : Waits s t (value s.now)
  | asleep {wake : α} (ready : s.ready = []) (sleepers : s.sleepers = [⟨wake, t⟩])
      (later : value s.now ≤ value wake) : Waits s t (value wake)

/-- What is told at the end of a run that is complete. -/
def lastWords (actor : Int) (time : α) : List (α × Signal α) :=
  [(time, .event ⟨actor, .wrote (Engine.terminal .completed) none⟩), (time, .notice (.settled actor .completed))]

/-- How far the run of an actor has come that is alone and set out on a stage, if `log` has been told since. -/
inductive Accounted (start : Stage α) (a : Actor α) (id : EngineId) (log : List (α × Signal α)) (s : Stage α) :
    Prop where
  | going {t : Task α} {wake : ℚ} (engines : s.engines = [(id, .underWay a.id)]) (own : t.engine = id)
      (run : t.run = 1) (waits : s.Waits t wake)
      (suspends : t.place.Suspends start.world (value start.now) a (log.map (·.2)) s.world wake)
  | ended (live : s.live = []) (known : s.world.Knows (a.heard (log.map (·.2))))
      (paid : ∀ entry ∈ s.engines, entry.2.outcome = some .completed → ∃ before ending,
        log = before ++ lastWords a.id ending ∧
          PaidOff start.world (value start.now) a (before.map (·.2)) (value ending))

variable {start : Stage α} {a : Actor α} {id : EngineId} {log : List (α × Signal α)} {s : Stage α}

omit [Scalar α] [Exact α] in
theorem told_append (log : List (α × Signal α)) (now : α) (out : List (Signal α)) :
    (log ++ out.map (now, ·)).map (·.2) = log.map (·.2) ++ out := by
  simp [Function.comp_def]

private theorem resume_accounted [Exacting α] (hinterval : 0 < value start.settings.frameInterval) {t : Task α}
    (engines : s.engines = [(id, .underWay a.id)]) (own : t.engine = id) (run : t.run = 1) (ready : s.ready = [])
    (sleepers : s.sleepers = [])
    (suspends : t.place.Suspends start.world (value start.now) a (log.map (·.2)) s.world (value s.now)) :
    Accounted start a id (log ++ (s.resume t).2.map (s.now, ·)) (s.resume t).1 := by
  have hengine : s.engine? t.engine = some (.underWay a.id) := by
    rw [engine?, engines, own]
    simp
  obtain ⟨hknows, haccounts⟩ := Place.resume_accounts hinterval suspends
  rw [← told_append log s.now] at hknows haccounts
  generalize hx : t.place.resume s.now a.id s.world = x at hknows haccounts
  rcases turn_cases hengine run hx (by simpa using hknows.isSome) with
    ⟨seconds, place, hhalt, hs⟩ | ⟨place, hhalt, hs⟩ | ⟨outcome, w, said, hhalt, hwrite, hs⟩
  · rw [hhalt] at haccounts
    rw [hs]
    refine .going (t := { t with place }) engines own run (.asleep ready (by simp [sleepers]) ?_) haccounts
    rw [value_wakeTime]
    exact le_add_of_nonneg_right (le_max_left _ _)
  · rw [hhalt] at haccounts
    rw [hs]
    exact .going (t := { t with place }) engines own run (.ready (by simp [ready]) sleepers) haccounts
  · rw [hhalt] at haccounts
    have hsaid := World.write_updates (Engine.terminal_plain outcome) hwrite
    have hended := hknows.updates (hsaid.append (.tell (.notice (.settled a.id outcome)) rfl (.nil _)))
    rw [← a.heard_append, told_append, List.append_assoc, ← told_append log s.now] at hended
    rw [hs]
    obtain ⟨-, -, -, rfl⟩ := World.write_eq_ok.mp hwrite
    refine .ended (by simp [live, ready, sleepers]) hended fun entry hentry hcompleted => ?_
    obtain rfl : entry = (id, .ended a.id outcome) := by simpa [setEntry, engines, own] using hentry
    cases Option.some.inj hcompleted
    refine ⟨log ++ x.out.map (s.now, ·), s.now, ?_, haccounts⟩
    simp [lastWords]
    rfl

omit [Exact α] in
theorem nextWake_single {wake : α} {t : Task α} (h : s.sleepers = [⟨wake, t⟩]) : s.nextWake = some wake := by
  simp [nextWake, h]

private theorem wakeAt_single {wake : α} {t : Task α} (ready : s.ready = []) (sleepers : s.sleepers = [⟨wake, t⟩])
    (later : value s.now ≤ value wake) : s.wakeAt wake = { s with now := wake, ready := [t], sleepers := [] } := by
  have hnow : Scalar.greatest s.now wake = wake := injective (by rw [value_greatest, max_eq_right later])
  have hsame : Scalar.eq wake wake = true := (Exact.eq_iff wake wake).mpr rfl
  simp [wakeAt, ready, sleepers, hnow, hsame]

/-- No beat loses or adds time. -/
theorem beat_accounted [Exacting α] (hinterval : 0 < value start.settings.frameInterval)
    (h : Accounted start a id log s) (beat : Beat α) :
    Accounted start a id (log ++ (s.beat beat).2.map (s.now, ·)) (s.beat beat).1 := by
  have hsilent : log ++ ([] : List (Signal α)).map (s.now, ·) = log := List.append_nil log
  cases h with
  | @going t _ engines own run waits suspends =>
    have hretire : s.retire.engines = [(id, .underWay a.id)] := by
      rw [retire, engines]
      cases id <;> rfl
    -- Only the beat that the task waits for changes what is accounted for.
    cases waits with
    | ready ready sleepers =>
      cases beat with
      | retire =>
        rw [Stage.beat, hsilent]
        exact .going hretire own run (.ready ready sleepers) suspends
      | clock time =>
        have hbusy : ¬ (s.tick? (.upTo time)).isNone = true := fun hnone => by
          have hidle := (tick?_isNone hnone).1
          rw [ready] at hidle
          cases hidle
        rw [Stage.beat, if_neg hbusy, hsilent]
        exact .going engines own run (.ready ready sleepers) suspends
      | wake =>
        simp only [Stage.beat, ready, hsilent]
        exact .going engines own run (.ready ready sleepers) suspends
      | turn =>
        simp only [Stage.beat, ready]
        exact resume_accounted (s := { s with ready := [] }) hinterval engines own run rfl sleepers suspends
    | @asleep wake ready sleepers later =>
      have hnext := nextWake_single sleepers
      cases beat with
      | retire =>
        rw [Stage.beat, hsilent]
        exact .going hretire own run (.asleep ready sleepers later) suspends
      | clock time =>
        simp only [Stage.beat, hsilent]
        split
        · rename_i hidle
          have hbefore := (tick?_isNone hidle).2 wake hnext
          rw [Horizon.admits, not_le_iff] at hbefore
          exact .going engines own run (.asleep ready sleepers hbefore.le) suspends
        · exact .going engines own run (.asleep ready sleepers later) suspends
      | wake =>
        simp only [Stage.beat, ready, hnext, hsilent]
        rw [wakeAt_single ready sleepers later]
        exact .going engines own run (.ready rfl rfl) suspends
      | turn =>
        simp only [Stage.beat, ready, hsilent]
        exact .going engines own run (.asleep ready sleepers later) suspends
  | ended live known paid =>
    have hnone := live
    simp only [Stage.live, List.append_eq_nil_iff, List.map_eq_nil_iff] at hnone
    cases beat with
    | retire =>
      rw [Stage.beat, hsilent]
      exact .ended live known fun entry hentry => paid entry (List.mem_filter.mp hentry).1
    | clock time =>
      simp only [Stage.beat, hsilent]
      split
      · exact .ended live known paid
      · exact .ended live known paid
    | wake =>
      simp only [Stage.beat, nextWake, hnone, hsilent]
      exact .ended live known paid
    | turn =>
      simp only [Stage.beat, hnone, hsilent]
      exact .ended live known paid

private theorem follow_accounted [Exacting α] (hinterval : 0 < value start.settings.frameInterval)
    (h : Accounted start a id log s) (beats : List (Beat α)) :
    Accounted start a id (log ++ (s.follow beats).2) (s.follow beats).1 := by
  induction beats generalizing s log with
  | nil =>
    rw [follow, List.append_nil]
    exact h
  | cons beat beats ih =>
    rw [follow, ← List.append_assoc]
    exact ih (beat_accounted hinterval h beat)

private theorem SetsOut.accounted (h : SetsOut a id s) : Accounted s a id [] s := by
  rcases h.cases with ⟨hactors, hengines, hlive⟩ | ⟨b, hactors, hlasting, hengines, hready, hsleepers⟩
  · exact .ended hlive ⟨a, Store.get?_of_alone hactors, rfl⟩ (by simp [hengines])
  · refine .going (t := ⟨id, 1, .fresh⟩) hengines rfl rfl (.ready hready hsleepers) ⟨.refl _, ?_, ?_, rfl⟩
    · exact ⟨b, hactors, by simpa using congrArg Actor.program hlasting, hlasting⟩
    · exact (add_zero _).symm

private theorem Accounted.knows (h : Accounted start a id log s) : s.world.Knows (a.heard (log.map (·.2))) := by
  cases h with
  | going _ _ _ _ suspends => exact suspends.knows
  | ended _ known _ => exact known

/-- Program time adds up. If the run of an actor that is alone on its stage is complete, then its last words were told
when exactly the costs of its blocks had passed since it set out. The blocks that are charged for are those of the
unrolled program, in its order, each for the actor as it is known from all that was told when the block starts; so
skipped blocks, loops, steps and collision passes cost nothing. On a stage with the types of every stage those that
ask for seconds cost just these, divided by the speed. -/
theorem program_time_adds_up [Exacting α] (h : SetsOut a id start)
    (hinterval : 0 < value start.settings.frameInterval) {beats : List (Beat α)}
    (hdone : ((start.follow beats).1.engine? id).bind (·.outcome) = some .completed) :
    ∃ before ending, (start.follow beats).2 = before ++ lastWords a.id ending ∧
      (charges a (before.map (·.2))).map Charge.read =
        (Program.unroll start.world.catalog a.program).map start.world.catalog.read ∧
      value ending = value start.now + ((charges a (before.map (·.2))).map (Charge.cost start.settings)).sum ∧
      (∀ n, (start.follow (beats.take n)).1.world.Knows (a.heard ((start.follow (beats.take n)).2.map (·.2)))) ∧
      (start.world.catalog = Catalog.builtIn → ∀ c ∈ charges a (before.map (·.2)), ∀ i seconds,
        c.instruction? = some i → i.seconds? = some seconds →
          c.cost start.settings = seconds.amount / start.settings.pace) := by
  have haccounted := follow_accounted hinterval h.accounted
  obtain ⟨e, he, houtcome⟩ := Option.bind_eq_some_iff.mp hdone
  have hmem := mem_of_lookup he
  cases haccounted beats with
  | going engines own run waits suspends =>
    rw [engines, List.mem_singleton, Prod.mk.injEq] at hmem
    rw [hmem.2] at houtcome
    cases houtcome
  | ended live known paid =>
    obtain ⟨before, ending, hlog, hpaid⟩ := paid _ hmem houtcome
    have hread : (charges a (before.map (·.2))).map Charge.read =
        (Program.unroll start.world.catalog a.program).map start.world.catalog.read := by
      rw [charges_read, hpaid.whole, itinerary_block?]
    refine ⟨before, ending, hlog, hread, hpaid.paid, fun n => (haccounted (beats.take n)).knows, ?_⟩
    intro hcatalog c hc i seconds hi hseconds
    obtain ⟨b, -, hb⟩ : ∃ b ∈ Program.unroll start.world.catalog a.program, start.world.catalog.read b = c.read := by
      rw [← List.mem_map, ← hread]
      exact List.mem_map_of_mem hc
    obtain rfl : b = c.block := congrArg Prod.fst hb
    exact Charge.cost_of_seconds (hcatalog ▸ hb) hi hseconds

/-- With two frames a second, a quarter turn takes two of them and forty steps take four. Both are made twice, then a
message is shown for a second, and the change of size takes one frame more. -/
theorem slow_time_adds_up :
    ∃ (a : Actor ℚ) (before : List (ℚ × Signal ℚ)), SetsOut a (.player 1) (slow.playActor 1).stage ∧
      ((slow.playActor 1).stage.follow untilDone).2 = before ++ lastWords a.id (15 / 2) ∧
      (charges a (before.map (·.2))).map Charge.read =
        (Program.unroll Catalog.builtIn a.program).map Catalog.builtIn.read ∧
      (charges a (before.map (·.2))).map (Charge.cost slow.settings) = [1, 2, 1, 2, 1, 1 / 2] ∧
      (15 / 2 : ℚ) = 0 + ((charges a (before.map (·.2))).map (Charge.cost slow.settings)).sum := by
  have hinterval : 0 < value (slow.playActor 1).stage.settings.frameInterval := by decide +kernel
  have hdone : (((slow.playActor 1).stage.follow untilDone).1.engine? (.player 1)).bind (·.outcome) =
      some .completed := by
    decide +kernel
  have hlast : ((slow.playActor 1).stage.follow untilDone).2.getLast?.map (·.1) = some (15 / 2) := by decide +kernel
  have hcosts : slow.store.actors.map (fun a =>
      (charges a (((slow.playActor 1).stage.follow untilDone).2.map (·.2))).map (Charge.cost slow.settings)) =
      [[1, 2, 1, 2, 1, 1 / 2]] := by
    decide +kernel
  obtain ⟨a, hlone, hid⟩ := slow_lone
  have hout : SetsOut a (.player 1) (slow.playActor 1).stage := hid ▸ .play hlone
  obtain ⟨before, ending, hlog, hread, hsum, -, -⟩ := program_time_adds_up hout hinterval hdone
  have hsettings : (slow.playActor 1).stage.settings = slow.settings := rfl
  have hcatalog : (slow.playActor 1).stage.world.catalog = Catalog.builtIn := rfl
  have hnow : (slow.playActor 1).stage.now = 0 := rfl
  rw [hlog, lastWords, List.getLast?_append] at hlast
  obtain rfl : ending = 15 / 2 := by simpa using hlast
  rw [show slow.store.actors = [a] from hlone.actors, List.map_singleton, List.singleton_inj, hlog, List.map_append,
    charges_append] at hcosts
  -- Nothing is charged for the last words.
  have hwords : ∀ b : Actor ℚ, charges b ((lastWords a.id (15 / 2)).map (·.2)) = [] := fun _ => rfl
  rw [hwords, List.append_nil] at hcosts
  rw [hcatalog] at hread
  rw [hsettings, hnow, Rational.value_eq, Rational.value_eq] at hsum
  exact ⟨a, before, hout, hlog, hread, hcosts, hsum⟩

end Stage

end SpriteStage
