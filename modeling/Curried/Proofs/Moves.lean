import Curried.Proofs.Handles

/-!
# Moves

A step of a session evaluates what it can read: a source, or a tree in its JSON
form.  A host that has built a tree by itself can evaluate that as well,
whatever the tree looks like and however deep it is.

**Moves.**  A `Move` is a step, or the evaluation of any tree under any table.
`Session.Arises host s` says that the moves of some session lead to `s`.

**Results.**
* `Session.InOrder.move`: every move keeps in order what every step does.
* `Session.Arises.sound`: after all moves, a session keeps to what the host
  keeps to.
-/

namespace Curried

/-- What can be done in a session: a step, or the evaluation of a tree. -/
inductive Move where
  | step (x : Step)
  | evaluate (t : Tree) (table : Table) (scope : String) (dest : Option String)

namespace Session

/-- Carries out one move. -/
def move (host : Host) (s : Session) : Move → Answer × Session
  | .step x => s.step host x
  | .evaluate t table scope dest =>
      s.withScope scope fun scope =>
        s.finish dest (runTree host table scope t s.machine)

/-- The moves of a session lead to the state. -/
inductive Arises (host : Host) : Session → Prop
  | initial : Arises host initial
  | move {s : Session} (x : Move) : Arises host s → Arises host (s.move host x).2

/-- Every move keeps a session in order. -/
theorem InOrder.move
    {host : Host} {w₀ : Extent} {C : Custody host w₀} {s : Session}
    (hs : s.InOrder C.toOrder) (hw : w₀ ≤ s.machine.extent) (x : Move) :
    (s.move host x).2.InOrder C.toOrder := by
  cases x with
  | step x => exact C.step hw hs x
  | evaluate t table scope dest =>
      refine Custody.withScope hs (fun scope hscope => ?_) scope
      exact Custody.finish hs (C.runTree hw hs.machine hscope table t) dest

theorem Arises.sound
    {d : Discipline} (hd : d.OfHandles) {host : Host} (hhost : host.Obeys d)
    {s : Session} (h : Arises host s) :
    s.Sound d := by
  induction h with
  | initial => exact initial_sound
  | @move s x _ ih =>
      have hs : s.InOrder
          (Custody.ofDiscipline hd hhost s.machine.extent).toOrder :=
        sound_iff_inOrder.1 ih
      exact sound_iff_inOrder.2 (hs.move (le_refl _) x)

end Session

end Curried
