import Dalvik.Proofs.Bounds

/-!
# Audiences

An audience is whoever is called while a source is read: a root and all the nodes that are handed over later. A
call is an event for a node. What is answered may depend on all that happened before, and may be a fault. To speak
of the calls themselves, an audience is attended to by a host that writes each call down before it is answered
(`Audience.host`). Nothing but the state of the audience and the list of calls changes when a node is called
(`Audience.host_private`).
-/

namespace Dalvik

/-- Whoever is called while a source is read. -/
structure Audience (ν σ : Type) where
  hears : ν → Verb → Bool
  hasShape : ν → Shape → Bool
  answer : ν → Event → ExceptT Fault (StateM σ) (Option ν)
  keep? : Option (String → Slot ν → ExceptT Fault (StateM σ) Unit)

/-- An audience in the middle of a reading. -/
structure Attendance (ν σ : Type) where
  own : σ
  calls : List (ν × Event)

namespace Audience

open Read

variable {ν σ α : Type} (A : Audience ν σ)

/-- A step of the audience in its own state. -/
def act (x : ExceptT Fault (StateM σ) α) : Read ν (Attendance ν σ) α := do
  let (res, own) := x.run.run (← get).world.own
  modify fun s => { s with world := { s.world with own := own } }
  attempt res

/-- Writes a call down. -/
def note (n : ν) (e : Event) : Read ν (Attendance ν σ) Unit :=
  modify fun s => { s with world := { s.world with calls := s.world.calls ++ [(n, e)] } }

/-- Calls the nodes of the audience, and writes the calls down. -/
def host : Host ν (Attendance ν σ) where
  hears := A.hears
  hasShape := A.hasShape
  deliver n e := do
    note n e
    act (A.answer n e)
  copy? := A.keep?.map fun keep line slot => act (keep line slot)

theorem outcome_act (x : ExceptT Fault (StateM σ) α) (s : Session ν (Attendance ν σ)) :
    outcome (act x) s = ((outcome x s.world.own).1,
      { s with world := { s.world with own := (outcome x s.world.own).2 } }) := by
  rcases hx : outcome x s.world.own with ⟨res, own⟩
  have hx' : x.run.run s.world.own = (res, own) := hx
  cases res <;> simp [act, outcome_bind, hx']

theorem outcome_deliver (n : ν) (e : Event) (s : Session ν (Attendance ν σ)) :
    outcome (A.host.deliver n e) s = ((outcome (A.answer n e) s.world.own).1,
      { s with world := ⟨(outcome (A.answer n e) s.world.own).2, s.world.calls ++ [(n, e)]⟩ }) := by
  have hnote : outcome (note n e) s
      = (.ok (), { s with world := { s.world with calls := s.world.calls ++ [(n, e)] } }) := rfl
  have hdeliver : A.host.deliver n e = note n e >>= fun _ => act (A.answer n e) := rfl
  rw [hdeliver, bind_ok s hnote, outcome_act]

theorem host_private : A.host.Private where
  deliver n e :=
    ⟨fun w => ((outcome (A.answer n e) w.own).1, ⟨(outcome (A.answer n e) w.own).2, w.calls ++ [(n, e)]⟩),
      fun s => A.outcome_deliver n e s⟩
  copy copy hcopy line slot := by
    obtain ⟨keep, -, rfl⟩ := Option.map_eq_some_iff.mp hcopy
    exact ⟨fun w => ((outcome (keep line slot) w.own).1, { w with own := (outcome (keep line slot) w.own).2 }),
      fun s => outcome_act (keep line slot) s⟩

/-- The reader with an audience. -/
abbrev reader (o : Options) : Reader ν (Attendance ν σ) := ⟨o, A.host⟩

end Audience

end Dalvik
