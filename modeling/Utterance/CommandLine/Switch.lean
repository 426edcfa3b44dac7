import Utterance.Text.Blank
import Utterance.Text.Numeric

/-!
# Switches

How the arguments of a command are read. A switch starts with a hyphen and may take a value, either
attached or as the next argument; long names may be cut short as long as they stay unambiguous, and
short ones without a value may be bundled. Everything else is a word. After a double hyphen all
arguments are words. A double hyphen that is attached in the place of a value withholds it.

A `Form` says which switches and which words a command takes, and what each of them does to the
state `σ` that is being filled in.
-/

namespace Utterance.CommandLine

/-- Why the reading of arguments ends early. -/
inductive Halt where
  /-- Help was asked for. -/
  | help
  /-- The arguments do not fit. -/
  | usage
  deriving DecidableEq, Repr

/-! ## Forms -/

/-- What a switch does. -/
inductive Effect (σ : Type) where
  | help
  | set (f : σ → σ)
  /-- Takes a value, which may be withheld and may be refused. -/
  | value (f : Option String → σ → Option σ)

/-- A switch with its names. -/
structure Switch (σ : Type) where
  names : List String
  effect : Effect σ

/-- The words that a form takes. -/
inductive Words (σ : Type) where
  | none
  /-- One word at most. -/
  | optional (f : String → σ → σ)
  /-- Exactly one word. -/
  | single (f : String → σ → σ)
  /-- A word and all arguments after it. The result also tells whether arguments were left over. -/
  | rest (f : List String → σ → Except Halt (σ × Bool))

/-- The switches and words that a command takes. -/
structure Form (σ : Type) where
  switches : List (Switch σ)
  words : Words σ := .none

namespace Form

variable {σ : Type}

/-- The switch for help, which every form has. -/
def helpSwitch : Switch σ := ⟨["-h", "--help"], .help⟩

/-- All names of switches, each with its switch. -/
def names (form : Form σ) : List (String × Switch σ) :=
  (helpSwitch :: form.switches).flatMap fun s => s.names.map fun name => (name, s)

/-- The switch with a name. -/
def find? (form : Form σ) (name : String) : Option (Switch σ) := form.names.lookup name

/-! ## Meaning of an argument -/

/-- What an argument is. -/
inductive Meaning (σ : Type) where
  | word
  | doubleHyphen
  /-- A switch under a long or a short name, with what is attached to it. -/
  | switch (s : Switch σ) (long : Bool) (attached : Option (List Char))
  | unknown

/-- An argument and what it is. -/
structure Argument (σ : Type) where
  text : String
  meaning : Meaning σ

/-- Whether characters are a negative number: digits, or digits around a point with one after it. -/
def isNegative (cs : List Char) : Bool :=
  match cs with
  | '-' :: digits =>
    let digits := if digits.getLast? == some '\n' then digits.dropLast else digits
    match digits.dropWhile Text.isDecimal with
    | [] => !digits.isEmpty
    | '.' :: frac => !frac.isEmpty && frac.all Text.isDecimal
    | _ => false
  | _ => false

/-- Whether a name is a long one. -/
def isLong (name : String) : Bool := name.toList[1]? == some '-'

/-- The switches that characters may be meant for, if they are no exact name. -/
def candidates (form : Form σ) (cs : List Char) : List (Meaning σ) :=
  match cs with
  | '-' :: '-' :: _ =>
    let (start, attached) := Text.cutAt '=' cs
    form.names.filterMap fun (name, s) =>
      if start.isPrefixOf name.toList then
        some (.switch s true attached)
      else none
  | _ =>
    form.names.filterMap fun (name, s) =>
      if name.toList == cs.take 2 then some (.switch s false (some (cs.drop 2)))
      else if cs.isPrefixOf name.toList then some (.switch s (isLong name) none)
      else none

/-- What an argument that may be a switch is meant to be. -/
def meaningOf (form : Form σ) (text : String) : Except Halt (Meaning σ) :=
  let cs := text.toList
  if cs.head? != some '-' then .ok .word
  else match form.find? text with
    | some s => .ok (.switch s (isLong text) none)
    | none =>
      if cs.length = 1 then .ok .word
      else
        let (name, attached) := Text.cutAt '=' cs
        match attached, form.find? (String.ofList name) with
        | some value, some s => .ok (.switch s (isLong (String.ofList name)) (some value))
        | _, _ =>
          match form.candidates cs with
          | [m] => .ok m
          | _ :: _ :: _ => .error .usage
          | [] => .ok (if isNegative cs || cs.contains ' ' then .word else .unknown)

/-- What the arguments are meant to be. -/
def meanings (form : Form σ) : List String → Except Halt (List (Argument σ))
  | [] => .ok []
  | text :: rest =>
    if text = "--" then .ok (⟨text, .doubleHyphen⟩ :: rest.map (⟨·, .word⟩))
    else do
      let m ← form.meaningOf text
      let ms ← form.meanings rest
      return ⟨text, m⟩ :: ms

/-! ## Bundles -/

/-- What the switches of one argument do, and the switch among them that waits for a value. -/
structure Bundle (σ : Type) where
  deeds : List (σ → Except Halt σ) := []
  pending : Option (Option String → σ → Option σ) := none

/-- Gives a value to a switch, which may refuse it. -/
def give (f : Option String → σ → Option σ) (value : Option String) (st : σ) : Except Halt σ :=
  match f value st with
  | some st => .ok st
  | none => .error .usage

/-- The value that attached characters stand for; a double hyphen stands for none. -/
def attachedValue (cs : List Char) : Option String :=
  if cs = ['-', '-'] then none else some (String.ofList cs)

/-- The bundle of a switch that stands alone. -/
def alone (s : Switch σ) : Bundle σ :=
  match s.effect with
  | .help => { deeds := [fun _ => .error .help] }
  | .set f => { deeds := [fun st => .ok (f st)] }
  | .value f => { pending := some f }

/-- The bundle of a switch to which characters are attached. A short switch that takes no value goes
on with the switch that the first of them names. -/
def bundle (form : Form σ) (s : Switch σ) (long : Bool) (attached : List Char) :
    Except Halt (Bundle σ) :=
  match s.effect with
  | .value f => .ok { deeds := [give f (attachedValue attached)] }
  | _ =>
    match attached with
    | [] => .error .usage
    | c :: rest =>
      match long, form.find? (String.ofList ['-', c]) with
      | false, some next => do
        let b ← if rest.isEmpty then .ok (alone next) else bundle form next false rest
        return { b with deeds := (alone s).deeds ++ b.deeds }
      | _, _ => .error .usage

/-- The bundle of an argument. -/
def bundleOf (form : Form σ) (s : Switch σ) (long : Bool) :
    Option (List Char) → Except Halt (Bundle σ)
  | none => .ok (alone s)
  | some attached => form.bundle s long attached

/-! ## Reading -/

/-- A form being filled in. -/
structure Filling (σ : Type) where
  state : σ
  /-- Whether words are still to come. -/
  awaiting : Bool := true
  leftover : Bool := false

/-- Whether an argument is a word. -/
def Argument.isWord (a : Argument σ) : Bool :=
  match a.meaning with
  | .word => true
  | _ => false

/-- Whether an argument is a double hyphen. -/
def Argument.isDoubleHyphen (a : Argument σ) : Bool :=
  match a.meaning with
  | .doubleHyphen => true
  | _ => false

/-- The word at the front of arguments, after or before a double hyphen, and the arguments after
them. -/
def takeWord (a : Argument σ) (rest : List (Argument σ)) :
    Option String × List (Argument σ) :=
  if a.isDoubleHyphen then
    match rest with
    | w :: rest => (some w.text, rest)
    | [] => (none, [])
  else
    match rest with
    | d :: after => (some a.text, if d.isDoubleHyphen then after else d :: after)
    | [] => (some a.text, [])

/-- Taking a word leaves no more arguments than there were. -/
theorem length_takeWord_le (a : Argument σ) (rest : List (Argument σ)) :
    (takeWord a rest).2.length ≤ rest.length := by
  unfold takeWord
  split
  · split <;> simp
  · split
    · simp only
      split <;> simp
    · simp

/-- Fills in a form from arguments. -/
def fill (form : Form σ) (f : Filling σ) : List (Argument σ) → Except Halt (Filling σ)
  | [] => .ok f
  | a :: rest =>
    match a.meaning with
    | .unknown => form.fill { f with leftover := true } rest
    | .switch s long attached => do
      let b ← form.bundleOf s long attached
      match b.pending, rest with
      | none, rest =>
        let st ← b.deeds.foldlM (fun st deed => deed st) f.state
        form.fill { f with state := st } rest
      | some put, v :: rest =>
        if v.isWord then
          let st ← b.deeds.foldlM (fun st deed => deed st) f.state
          let st ← give put (some v.text) st
          form.fill { f with state := st } rest
        else throw .usage
      | some _, [] => throw .usage
    | _ =>
      if !f.awaiting then form.fill { f with leftover := true } rest
      else
        match form.words with
        | .none => form.fill { f with leftover := true } rest
        | .rest run =>
          if a.isDoubleHyphen && rest.isEmpty then .ok { f with leftover := true }
          else do
            let (st, left) ← run ((a :: rest).map (·.text)) f.state
            return { state := st, awaiting := false, leftover := f.leftover || left }
        | .optional put =>
          let taken := takeWord a rest
          form.fill
            { f with state := taken.1.elim f.state (put · f.state), awaiting := false } taken.2
        | .single put =>
          let taken := takeWord a rest
          form.fill
            { f with
              state := taken.1.elim f.state (put · f.state)
              awaiting := taken.1.isNone
              leftover := f.leftover || taken.1.isNone }
            taken.2
termination_by args => args.length
decreasing_by
  · exact Nat.lt_succ_self _
  · exact Nat.lt_succ_self _
  · simp only [List.length_cons]
    omega
  · exact Nat.lt_succ_self _
  · exact Nat.lt_succ_self _
  · exact Nat.lt_succ_of_le (length_takeWord_le a rest)
  · exact Nat.lt_succ_of_le (length_takeWord_le a rest)

/-- Whether a form cannot do without a word. -/
def needsWord (form : Form σ) : Bool :=
  match form.words with
  | .single _ => true
  | _ => false

/-- Reads arguments by a form. The result also tells whether arguments were left over. -/
def read (form : Form σ) (start : σ) (args : List String) : Except Halt (σ × Bool) := do
  let f ← form.fill { state := start } (← form.meanings args)
  if f.awaiting && form.needsWord then throw .usage
  return (f.state, f.leftover)

end Form

end Utterance.CommandLine
