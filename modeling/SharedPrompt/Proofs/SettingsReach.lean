import Mathlib
import SharedPrompt.Proofs.SettingsRead
import SharedPrompt.Proofs.WorkerVariables

/-!
# From a document to the engine of a worker

A document has settings if each of its fields is of its type. The worker that is hired with them has
an engine with these modules and these variables, and no other, however long it works.
-/

namespace SharedPrompt

open Toml

/-- At the end of a run a worker is as some options have set it up, and so a command of its units finds
it that asks for a variable. -/
structure Crew.Serves (c : Crew) (name : String) (o : WorkerOptions) (past : List CrewEvent) : Prop where
  worker : ∃ w, (c.run past).worker? name = some w ∧ w.SetUp o (c.changes name past)
  told : ∀ inv x rest, (c.run past).doing? name = some (.command inv false) →
    inv.rest = .get x :: rest → (c.run (past ++ [.turn name])).doing? name =
      some (.command (inv.put ((((c.changes name past).reverse.lookup x).or
        (o.preload.bindings.lookup x)).getD .null) rest) false)

theorem Crew.serves_start {c : Crew} {name : String} (hnew : c.worker? name = none)
    (behavior : Behavior) {o : WorkerOptions} (hkeys : (o.preload.bindings.map Prod.fst).Nodup)
    (past : List CrewEvent) : (c.start name behavior o).Serves name o past := by
  obtain ⟨w, hw, hset⟩ := setUp_run_start hnew behavior hkeys past
  refine ⟨⟨w, hw, hset⟩, fun inv x rest hdoing hrest => ?_⟩
  rw [run_concat, doing?_get hw hdoing hrest, hset.found]

namespace Settings

variable {text : String} {t : Table} {s : Settings}

theorem read?_eq_ok_iff (ht : Table.read? text = some t) : read? text = .ok s ↔ ofTable? t = some s := by
  rw [read?, ht, Option.bind_some]
  cases ofTable? t <;> simp

/-- The variables of a document stand in order, each once. -/
theorem Of.nodup (hs : s.Of t) : (s.background.bindings.map Prod.fst).Nodup := by
  have hbindings := hs.background.bindings
  unfold FieldIs at hbindings
  split at hbindings
  · exact hbindings.sorted.nodup
  · rw [hbindings]
    exact List.nodup_nil

def fullDocument : String := "
read_line = \"legacy\"

[background]
thread_name = \"providers\"
modules = [\"/opt/editor/Editor.psd1\"]

[background.variables]
hostName = \"editor\"
retries = 3
"

def fullTree : Table :=
  [("read_line", .str "legacy"),
    ("background", .table .header
      [("thread_name", .str "providers"),
        ("modules", .array false [.str "/opt/editor/Editor.psd1"]),
        ("variables", .table .header [("hostName", .str "editor"), ("retries", .int 3)])])]

def dottedDocument : String := "
background.variables.retries = 3
background.modules = [\"/opt/editor/Editor.psd1\"]
background.variables.hostName = \"editor\"
background.thread_name = \"providers\"
read_line = \"legacy\"
"

def dottedTree : Table :=
  [("background", .table .dotted
      [("variables", .table .dotted [("retries", .int 3), ("hostName", .str "editor")]),
        ("modules", .array false [.str "/opt/editor/Editor.psd1"]),
        ("thread_name", .str "providers")]),
    ("read_line", .str "legacy")]

theorem fullTree_same_dottedTree : fullTree.Same dottedTree := by
  have hvariables : Table.Same [("hostName", .str "editor"), ("retries", .int 3)]
      [("retries", .int 3), ("hostName", .str "editor")] :=
    Table.same_of_forall_mem (by decide) (by decide) rfl (by simp [Node.Same.refl])
  have hbackground : Table.Same
      [("thread_name", .str "providers"),
        ("modules", .array false [.str "/opt/editor/Editor.psd1"]),
        ("variables", .table .header [("hostName", .str "editor"), ("retries", .int 3)])]
      [("variables", .table .dotted [("retries", .int 3), ("hostName", .str "editor")]),
        ("modules", .array false [.str "/opt/editor/Editor.psd1"]),
        ("thread_name", .str "providers")] :=
    Table.same_of_forall_mem (by decide) (by decide) rfl (by
      simp [Node.Same.refl, hvariables.node .header .dotted])
  exact Table.same_of_forall_mem (by decide) (by decide) rfl (by
    simp [fullTree, dottedTree, Node.Same.refl, hbackground.node .header .dotted])

def fullSettings : Settings where
  native := false
  background :=
    { thread := "providers"
      modules := ["/opt/editor/Editor.psd1"]
      bindings := [("hostName", .str "editor"), ("retries", .int 3)] }

def asking (turns : Nat) : List CrewEvent :=
  .submit "w" [.invoke (.script "a"), .set "hostName" (.str "x")] :: List.replicate turns (.turn "w")

def Reads (text : String) (t : Table) (r : Except SettingsFault Settings) : Prop :=
  Table.read? text = some t ∧ read? text = r

theorem reads_ok (ht : Table.read? text = some t) (hs : ofTable? t = some s) : Reads text t (.ok s) :=
  ⟨ht, (read?_eq_ok_iff ht).2 hs⟩

end Settings

end SharedPrompt
