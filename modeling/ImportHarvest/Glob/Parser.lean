import ImportHarvest.Glob.Basic
/-!
Reading glob patterns.

`*` runs over anything, and a pair of stars stands for directories where it fills the space between two slashes, a
slash and an end, or an end of a branch. `[` opens a class, `\x7b` a group of branches that `,` parts and `\x7d` ends,
and a backslash takes the next character as it is. The first fault in the pattern is the one that is told.
-/

namespace ImportHarvest.Glob

/-- why a pattern has no meaning -/
inductive PatternError where
  | unclosedClass
  | invalidRange (low high : Char)
  | unopenedGroup
  | unclosedGroup
  | danglingEscape
  deriving DecidableEq, Repr

/-- what is said of such a pattern -/
def PatternError.message : PatternError → String
  | .unclosedClass => "unclosed character class; missing ']'"
  | .invalidRange low high => "invalid range; '" ++ low.toString ++ "' > '" ++ high.toString ++ "'"
  | .unopenedGroup => "unopened alternate group; missing '\x7b' (maybe escape '\x7d' with '[\x7d]'?)"
  | .unclosedGroup => "unclosed alternate group; missing '\x7d' (maybe escape '\x7b' with '[\x7b]'?)"
  | .danglingEscape => "dangling '\\'"

/-! ## Classes -/

/-- the ranges of a class and how many characters they take, the closing bracket included. `first` tells that no member
was read yet, `inRange` that a dash came and the next member ends the latest range; `ranges` has the latest range in
front -/
def classRanges (first inRange : Bool) (ranges : List (Char × Char)) :
    List Char → Except PatternError (List (Char × Char) × Nat)
  | [] => .error .unclosedClass
  | c :: cs =>
    if c = ']' && !first then
      .ok ((if inRange then ('-', '-') :: ranges else ranges).reverse, 1)
    else if c = '-' && !first && !inRange then
      (classRanges false true ranges cs).map fun (rs, taken) => (rs, taken + 1)
    else
      match inRange, ranges with
      | true, (low, _) :: earlier =>
        if c < low then .error (.invalidRange low c)
        else (classRanges false false ((low, c) :: earlier) cs).map fun (rs, taken) => (rs, taken + 1)
      | _, _ => (classRanges false false ((c, c) :: ranges) cs).map fun (rs, taken) => (rs, taken + 1)

/-- a class after its opening bracket -/
def classToken : List Char → Except PatternError (Token × Nat)
  | '!' :: cs => (classRanges true false [] cs).map fun (rs, taken) => (.class true rs, taken + 1)
  | '^' :: cs => (classRanges true false [] cs).map fun (rs, taken) => (.class true rs, taken + 1)
  | cs => (classRanges true false [] cs).map fun (rs, taken) => (.class false rs, taken)

/-! ## Groups -/

/-- the branches read so far at one level of nesting, the latest in front, and each with its latest token in front -/
structure Level where
  branch : List Token
  earlier : List (List Token)
  deriving Inhabited

/-- the level that is being read and the levels around it -/
structure Draft where
  level : Level
  around : List Level
  deriving Inhabited

namespace Draft

def start : Draft := ⟨⟨[], []⟩, []⟩

/-- whether the draft stands inside a group -/
def inGroup (d : Draft) : Bool := !d.around.isEmpty

def push (d : Draft) (t : Token) : Draft := { d with level.branch := t :: d.level.branch }

/-- the draft with its latest token replaced -/
def replaceLast (d : Draft) (f : Option Token → Token) : Draft :=
  { d with level.branch := f d.level.branch.head? :: d.level.branch.drop 1 }

def openGroup (d : Draft) : Draft := ⟨⟨[], []⟩, d.level :: d.around⟩

def nextBranch (d : Draft) : Draft := { d with level := ⟨[], d.level.branch :: d.level.earlier⟩ }

/-- a token that is a group without branches takes nothing -/
def isVoid : Token → Bool
  | .alternates [] => true
  | _ => false

/-- closes the innermost group; branches that would take nothing are left out -/
def closeGroup? (d : Draft) : Option Draft :=
  match d.around with
  | [] => none
  | outer :: around =>
    let branches := ((d.level.branch :: d.level.earlier).map List.reverse).reverse
    some (Draft.push ⟨outer, around⟩ (.alternates (branches.filter fun ts => !ts.all isVoid)))

end Draft

/-! ## Patterns -/

def isSlash? : Option Char → Bool
  | some c => c = '/'
  | none => false

/-- what a pair of stars does to the draft, and how many characters after it belong to it; `before` is the character in
front of the pair and `cs` what follows it -/
def starPair (d : Draft) (before : Option Char) (cs : List Char) : Draft × Nat :=
  let twoStars := ((d.push .anyRun).push .anyRun, 0)
  if d.level.branch.isEmpty then
    match cs with
    | [] => (d.push .leading, 0)
    | c :: _ => if c = '/' then (d.push .leading, 1) else twoStars
  else if !isSlash? before && !(d.inGroup && (before = some ',' || before = some '\x7b')) then twoStars
  else
    let replaceBy (t : Token) := d.replaceLast fun
      | some .leading => .leading
      | some .beneath => .beneath
      | _ => t
    match cs with
    | [] => (replaceBy .beneath, 0)
    | c :: _ =>
      if (c = ',' || c = '\x7d') && d.inGroup then (replaceBy .beneath, 0)
      else if c = '/' then (replaceBy .between, 1)
      else twoStars

/-- reads on; `before` is the character that was read last -/
def readTokens (before : Option Char) (d : Draft) : List Char → Except PatternError (List Token)
  | [] => if d.inGroup then .error .unclosedGroup else .ok d.level.branch.reverse
  | '?' :: cs => readTokens (some '?') (d.push .any) cs
  | '*' :: '*' :: cs =>
    let (d, taken) := starPair d before cs
    readTokens (some (if taken = 0 then '*' else '/')) d (cs.drop taken)
  | '*' :: cs => readTokens (some '*') (d.push .anyRun) cs
  | '[' :: cs =>
    match classToken cs with
    | .error e => .error e
    | .ok (t, taken) => readTokens (some ']') (d.push t) (cs.drop taken)
  | '\x7b' :: cs => readTokens (some '\x7b') d.openGroup cs
  | '\x7d' :: cs =>
    match d.closeGroup? with
    | none => .error .unopenedGroup
    | some d => readTokens (some '\x7d') d cs
  | ',' :: cs => readTokens (some ',') (if d.inGroup then d.nextBranch else d.push (.literal ',')) cs
  | '\\' :: cs =>
    match cs with
    | [] => .error .danglingEscape
    | c :: cs => readTokens (some c) (d.push (.literal c)) cs
  | c :: cs => readTokens (some c) (d.push (.literal c)) cs
termination_by cs => cs.length
decreasing_by all_goals simp only [List.length_drop, List.length_cons]; omega

/-- the pattern that a string is -/
def parse (pattern : String) : Except PatternError Glob :=
  (readTokens none Draft.start pattern.toList).map fun ts => ⟨ts⟩

end ImportHarvest.Glob
