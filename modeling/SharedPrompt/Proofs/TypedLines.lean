import Mathlib.Data.List.Basic
import SharedPrompt.Console.Line

/-!
# The line that a list of keys types

One function says what a key does to the text of a line; what a list of keys types is its fold over
the empty text. The Enter keys of a stream cut it into the parts that one line each is read from.
-/

namespace SharedPrompt

/-- A plain character is appended, backspace takes the last character if there is one, escape clears
a command line, and every other key does nothing. -/
def KeyPress.edit (commandLine : Bool) (text : List Char) : KeyPress → List Char
  | ⟨.char c, false, false⟩ => text ++ [c]
  | ⟨.backspace, _, _⟩ => text.dropLast
  | ⟨.escape, _, _⟩ => if commandLine then [] else text
  | _ => text

def typed (commandLine : Bool) (keys : List KeyPress) : List Char :=
  keys.foldl (KeyPress.edit commandLine) []

def KeyPress.isEnter (key : KeyPress) : Bool := key.code = .enter

theorem typed_concat (commandLine : Bool) (keys : List KeyPress) (key : KeyPress) :
    typed commandLine (keys ++ [key]) = key.edit commandLine (typed commandLine keys) := by
  rw [typed, List.foldl_append]
  rfl

namespace Edit

variable (commandLine : Bool) (line : List Char) (key : KeyPress)

/-- The line editor edits as it should, -/
theorem line_ofKey : (ofKey commandLine line key).line = key.edit commandLine line := by
  obtain ⟨code, ctrl, alt⟩ := key
  cases code with
  | char c => cases ctrl <;> cases alt <;> rfl
  | backspace =>
    cases line with
    | nil => rfl
    | cons c rest => rfl
  | escape => cases commandLine <;> rfl
  | _ => rfl

/-- and accepts the line at Enter alone. -/
theorem accepted_ofKey : (ofKey commandLine line key).accepted = key.isEnter := by
  obtain ⟨code, ctrl, alt⟩ := key
  cases code with
  | char c => cases ctrl <;> cases alt <;> rfl
  | backspace =>
    cases line with
    | nil => rfl
    | cons c rest => rfl
  | escape => cases commandLine <;> rfl
  | _ => rfl

end Edit

theorem KeyPress.edit_of_isEnter {key : KeyPress} (hkey : key.isEnter = true) (commandLine : Bool)
    (text : List Char) : key.edit commandLine text = text := by
  obtain ⟨code, ctrl, alt⟩ := key
  cases code with
  | enter => rfl
  | _ => cases hkey

/-! ## Cutting a stream of keys -/

/-- The keys up to the first Enter, with it, and the keys after it. -/
def cut? : List KeyPress → Option (List KeyPress × List KeyPress)
  | [] => none
  | key :: rest =>
    if key.isEnter then some ([key], rest) else (cut? rest).map fun p => (key :: p.1, p.2)

/-- What reads come to that take their keys from a stream one after the other, each with its own
mode: the keys that are used up by each line, and the line. -/
def linesOf : List Bool → List KeyPress → List (List KeyPress × String)
  | [], _ => []
  | commandLine :: modes, keys =>
    match cut? keys with
    | some (own, rest) => (own, String.ofList (typed commandLine own)) :: linesOf modes rest
    | none => []

theorem cut?_append {keys : List KeyPress} (hkeys : ∀ k ∈ keys, k.isEnter = false)
    {enter : KeyPress} (henter : enter.isEnter = true) (rest : List KeyPress) :
    cut? (keys ++ enter :: rest) = some (keys ++ [enter], rest) := by
  induction keys with
  | nil => rw [List.nil_append, cut?, if_pos henter, List.nil_append]
  | cons k keys ih =>
    have hk : ¬ k.isEnter = true := by rw [hkeys k (List.mem_cons_self ..)]; exact Bool.false_ne_true
    rw [List.cons_append, cut?, if_neg hk, ih fun k hk => hkeys k (List.mem_cons_of_mem _ hk)]
    rfl

/-- Backspace at the start does nothing, nor does a modified character; escape clears command lines
alone. -/
example :
    linesOf [true, false]
      [⟨.backspace, false, false⟩, ⟨.char 'a', false, false⟩, ⟨.char 'b', true, false⟩,
        ⟨.escape, false, false⟩, ⟨.char 'c', false, false⟩, ⟨.enter, false, false⟩,
        ⟨.char 'd', false, false⟩, ⟨.escape, false, false⟩, ⟨.enter, false, false⟩] =
      [([⟨.backspace, false, false⟩, ⟨.char 'a', false, false⟩, ⟨.char 'b', true, false⟩,
          ⟨.escape, false, false⟩, ⟨.char 'c', false, false⟩, ⟨.enter, false, false⟩], "c"),
        ([⟨.char 'd', false, false⟩, ⟨.escape, false, false⟩, ⟨.enter, false, false⟩], "d")] := rfl

end SharedPrompt
