import Mathlib.Data.List.Induction
import Mathlib.Data.List.Infix

/-! A relative path is resolved one component at a time: what comes out lies in the workspace, and
no link on the way leads out of it. -/

namespace ForgeNode.Containment

open List

abbrev Name : Type := List Char

/-- An absolute path without links and dots, the root of the file system empty. -/
abbrev Place : Type := List Name

inductive Step where
  | up | down (name : Name)
  deriving DecidableEq

/-- An entry of the file system; a link has the steps of its target, from the root or from its own
directory. -/
inductive Node where
  | dir | file | link (absolute : Bool) (steps : List Step)
  deriving DecidableEq

/-- The entries that there are, each in a directory. -/
structure FileSystem where
  entry : Place → Option Node
  root : entry [] = some .dir
  inDir : ∀ place name, entry (place ++ [name]) ≠ none → entry place = some .dir

inductive Errno where
  | notFound | notDir | loop | exists_
  deriving DecidableEq

/-- How a path ends: followed, named itself, or created where it is missing. -/
inductive Mode where
  | follow | noFollow | create
  deriving DecidableEq

/-- Most links in one lookup. -/
def maxLinks : Nat := 40

/-- Look a path up, from a directory on. -/
def walk (fs : FileSystem) (mode : Mode) (links : Nat) (at_ : Place) (steps : List Step) :
    Except Errno Place :=
  match steps with
  | [] => .ok at_
  | .up :: rest => walk fs mode links at_.dropLast rest
  | .down name :: rest =>
    match fs.entry (at_ ++ [name]) with
    | none => if mode = .create ∧ rest = [] then .ok (at_ ++ [name]) else .error .notFound
    | some .dir => walk fs mode links (at_ ++ [name]) rest
    | some .file => if rest = [] then .ok (at_ ++ [name]) else .error .notDir
    | some (.link absolute target) =>
      if mode = .noFollow ∧ rest = [] then .ok (at_ ++ [name])
      else
        match links with
        | 0 => .error .loop
        | links + 1 => walk fs mode links (if absolute then [] else at_) (target ++ rest)
termination_by (links, steps.length)

def lookup (fs : FileSystem) (mode : Mode) (path : Place) : Except Errno Place :=
  walk fs mode maxLinks [] (path.map .down)

/-- `fs::canonicalize`. -/
def canonicalize (fs : FileSystem) (path : Place) : Except Errno Place := lookup fs .follow path

/-- `symlink_metadata().is_ok()`. -/
def symlinkMetadataIsOk (fs : FileSystem) (path : Place) : Bool :=
  match lookup fs .noFollow path with
  | .ok place => (fs.entry place).isSome
  | .error _ => false

/-- `Path::is_dir`. -/
def isDir (fs : FileSystem) (path : Place) : Bool :=
  match lookup fs .follow path with
  | .ok place => fs.entry place = some .dir
  | .error _ => false

inductive Component where
  | rootDir | curDir | parentDir | normal (name : Name)
  deriving DecidableEq

/-- `Path::components`: empty parts and dots are left out, a leading dot apart. -/
def components (relative : List Char) : List Component :=
  let parts := relative.splitOn '/'
  let component (part : List Char) : Option Component :=
    if part = [] ∨ part = ['.'] then none else if part = ['.', '.'] then some .parentDir else some
      (.normal part)
  if relative.head? = some '/' then .rootDir :: parts.filterMap component
  else if parts.head? = some ['.'] then .curDir :: parts.filterMap component
  else parts.filterMap component

/-- The walk over the components; `none` is a path that escapes the workspace. -/
def resolveFrom (fs : FileSystem) (root : Place) (current : Place) : List Component → Option Place
  | [] => if root.isPrefixOf current then some current else none
  | .normal name :: rest =>
    if symlinkMetadataIsOk fs (current ++ [name]) then
      match canonicalize fs (current ++ [name]) with
      | .error _ => none
      | .ok canon => if root.isPrefixOf canon then resolveFrom fs root canon rest else none
    else resolveFrom fs root (current ++ [name]) rest
  | _ :: rest => resolveFrom fs root current rest

def resolveComponents (fs : FileSystem) (root : Place) (relative : List Component) : Option Place :=
  if relative.any fun component => component = .parentDir || component = .rootDir then none
  else resolveFrom fs root root relative

def resolveInside (fs : FileSystem) (root : Place) (relative : List Char) : Option Place :=
  resolveComponents fs root (components relative)

/-- Mutations name a directory entry, not the target of its final link. -/
def resolveEntryInside (fs : FileSystem) (root : Place) (relative : List Char) : Option Place :=
  match (components relative).getLast? with
  | some (.normal name) =>
    (resolveComponents fs root (components relative).dropLast).map (· ++ [name])
  | _ => none

section Creating

/-- A directory in a place that is free. -/
def FileSystem.withDir (fs : FileSystem) (place : Place) (name : Name)
    (dir : fs.entry place = some .dir) (free : fs.entry (place ++ [name]) = none) : FileSystem where
  entry other := if other = place ++ [name] then some .dir else fs.entry other
  root := by
    rw [if_neg (fun same => cons_ne_nil _ _ (append_eq_nil_iff.mp same.symm).2)]
    exact fs.root
  inDir other name' there := by
    by_cases here : other ++ [name'] = place ++ [name]
    · obtain ⟨rfl, -⟩ := append_inj' here rfl
      rw [if_neg (fun same => by simpa using congrArg List.length same)]
      exact dir
    · rw [if_neg here] at there
      have parent := fs.inDir other name' there
      by_cases same : other = place ++ [name]
      · rw [same, free] at parent
        cases parent
      · rw [if_neg same]
        exact parent

def mkdir (fs : FileSystem) (path : Place) : Except Errno FileSystem :=
  match path.getLast? with
  | none => .error .exists_
  | some name =>
    match lookup fs .follow path.dropLast with
    | .error error => .error error
    | .ok place =>
      if dir : fs.entry place = some .dir then
        if free : fs.entry (place ++ [name]) = none then .ok (fs.withDir place name dir free)
        else .error .exists_
      else .error .notDir

/-- `fs::create_dir_all`, with what is there when it returns and whether it succeeded. -/
def createDirAll (fs : FileSystem) (path : Place) : FileSystem × Bool :=
  if _some : path = [] then (fs, true)
  else
    match mkdir fs path with
    | .ok fs => (fs, true)
    | .error .notFound =>
      match createDirAll fs path.dropLast with
      | (fs, false) => (fs, false)
      | (fs, true) =>
        match mkdir fs path with
        | .ok fs => (fs, true)
        | .error _ => (fs, isDir fs path)
    | .error _ => (fs, isDir fs path)
termination_by path.length
decreasing_by
  have long := length_pos_iff.mpr _some
  rw [length_dropLast]
  omega

end Creating

section Walking

variable {fs : FileSystem} {mode : Mode} {links : Nat} {place path root : Place}

/-- No existing prefix is a link. -/
def Plain (fs : FileSystem) (path : Place) : Prop :=
  ∀ front, front <+: path → ∀ absolute target, fs.entry front ≠ some (.link absolute target)

theorem Plain.above {front : Place} (plain : Plain fs path) (before : front <+: path) :
    Plain fs front :=
  fun other inside => plain other (inside.trans before)

theorem prefix_snoc {front : Place} {name : Name} (before : front <+: path ++ [name]) :
    front <+: path ∨ front = path ++ [name] := (prefix_concat_iff.mp before).symm

theorem Plain.snoc {name : Name} (plain : Plain fs path)
    (last : ∀ absolute target, fs.entry (path ++ [name]) ≠ some (.link absolute target)) :
    Plain fs (path ++ [name]) := by
  intro front before
  rcases prefix_snoc before with inside | rfl
  · exact plain front inside
  · exact last

theorem dir_above {front : Place} (there : fs.entry path ≠ none) (before : front <+: path)
    (proper : front ≠ path) : fs.entry front = some .dir := by
  induction path using List.reverseRecOn with
  | nil => exact absurd (prefix_nil.mp before) proper
  | append_singleton path name ih =>
    have parent := fs.inDir path name there
    rcases prefix_snoc before with inside | same
    · by_cases here : front = path
      · rw [here, parent]
      · exact ih (by rw [parent]; nofun) inside here
    · exact absurd same proper

theorem plain_of_exists (dir : fs.entry path = some .dir) : Plain fs path := by
  intro front before absolute target
  by_cases same : front = path
  · rw [same, dir]
    nofun
  · rw [dir_above (by rw [dir]; nofun) before same]
    nofun

theorem dir_dropLast (dir : fs.entry path = some .dir) : fs.entry path.dropLast = some .dir := by
  induction path using List.reverseRecOn with
  | nil => exact dir
  | append_singleton path name ih =>
    rw [dropLast_concat]
    exact fs.inDir path name (by rw [dir]; nofun)

/-- Where links are followed, the place that a lookup finds has none on its way. -/
theorem walk_plain {steps : List Step} (dir : fs.entry place = some .dir) (follows : mode = .follow)
    (found : walk fs mode links place steps = .ok path) : Plain fs path ∧ fs.entry path ≠ none := by
  fun_induction walk fs mode links place steps with
  | case1 links place =>
    cases found
    exact ⟨plain_of_exists dir, by rw [dir]; nofun⟩
  | case2 links place rest ih => exact ih (dir_dropLast dir) found
  | case3 links place name rest none_ creates => exact absurd (follows.symm.trans creates.1) nofun
  | case4 => cases found
  | case5 links place name rest there ih => exact ih there found
  | case6 links place name there =>
    cases found
    refine ⟨(plain_of_exists dir).snoc ?_, by rw [there]; nofun⟩
    rw [there]
    nofun
  | case7 => cases found
  | case8 links place name rest absolute target there named =>
    exact absurd (follows.symm.trans named.1) nofun
  | case9 => cases found
  | case10 place name rest absolute target there followed links ih =>
    refine ih ?_ found
    split
    · exact fs.root
    · exact dir

/-- A path without links is where it says. -/
theorem walk_of_plain (rest : List Name) (plain : Plain fs (place ++ rest))
    (found : walk fs mode links place (rest.map .down) = .ok path) : path = place ++ rest := by
  induction rest generalizing place with
  | nil =>
    rw [map_nil, walk] at found
    cases found
    rw [append_nil]
  | cons name rest ih =>
    have whole : place ++ name :: rest = place ++ [name] ++ rest := by simp
    have here := plain (place ++ [name]) (whole ▸ prefix_append _ _)
    rw [map_cons, walk] at found
    split at found
    case h_1 =>
      split at found
      case isTrue last =>
        cases found
        rw [map_eq_nil_iff.mp last.2]
      case isFalse => cases found
    case h_2 => rw [whole, ih (whole ▸ plain) found]
    case h_3 =>
      split at found
      case isTrue last =>
        cases found
        rw [map_eq_nil_iff.mp last]
      case isFalse => cases found
    case h_4 absolute target there => exact absurd there (here absolute target)

/-- An entry that there is can be named. -/
theorem walk_noFollow (rest : List Name) (there : fs.entry (place ++ rest) ≠ none) :
    walk fs .noFollow links place (rest.map .down) = .ok (place ++ rest) := by
  induction rest generalizing place with
  | nil => rw [map_nil, walk, append_nil]
  | cons name rest ih =>
    have whole : place ++ name :: rest = place ++ [name] ++ rest := by simp
    rw [whole] at there ⊢
    rw [map_cons, walk]
    cases rest with
    | nil =>
      rw [append_nil] at there ⊢
      split
      case h_1 none_ => exact absurd none_ there
      case h_2 => rw [map_nil, walk]
      case h_3 => exact if_pos rfl
      case h_4 => exact if_pos ⟨rfl, rfl⟩
    | cons next rest =>
      have dir := dir_above there (prefix_append _ _) (by simp)
      rw [dir]
      exact ih there

theorem lookup_of_plain (plain : Plain fs path) (found : lookup fs mode path = .ok place) :
    place = path :=
  walk_of_plain path plain found

theorem canonical_plain (canonical : canonicalize fs path = .ok place) :
    Plain fs place ∧ fs.entry place ≠ none :=
  walk_plain fs.root rfl canonical

theorem missing_of_not_ok (absent : symlinkMetadataIsOk fs path = false) :
    fs.entry path = none := by
  by_contra there
  have named : lookup fs .noFollow path = .ok path := walk_noFollow path there
  rw [symlinkMetadataIsOk, named, ← Bool.not_eq_true, Option.isSome_iff_ne_none] at absent
  exact absent there

/-- The walk keeps to paths without links, and ends below the root. -/
theorem resolveFrom_plain {current : Place} {relative : List Component} (plain : Plain fs current)
    (resolved : resolveFrom fs root current relative = some path) :
    root <+: path ∧ Plain fs path := by
  induction relative generalizing current with
  | nil =>
    rw [resolveFrom] at resolved
    split at resolved
    case isTrue below =>
      cases resolved
      exact ⟨List.isPrefixOf_iff_prefix.mp below, plain⟩
    case isFalse => cases resolved
  | cons component rest ih =>
    cases component with
    | normal name =>
      rw [resolveFrom] at resolved
      split at resolved
      case isTrue =>
        split at resolved
        case h_1 => cases resolved
        case h_2 canon canonical =>
          split at resolved
          case isTrue => exact ih (canonical_plain canonical).1 resolved
          case isFalse => cases resolved
      case isFalse absent =>
        have missing := missing_of_not_ok (Bool.eq_false_iff.mpr absent)
        refine ih (plain.snoc ?_) resolved
        rw [missing]
        nofun
    | rootDir => exact ih plain resolved
    | curDir => exact ih plain resolved
    | parentDir => exact ih plain resolved

theorem resolveComponents_plain {relative : List Component}
    (canonical : canonicalize fs root = .ok root)
    (resolved : resolveComponents fs root relative = some path) :
    root <+: path ∧ Plain fs path := by
  rw [resolveComponents] at resolved
  split at resolved
  case isTrue => cases resolved
  case isFalse => exact resolveFrom_plain (canonical_plain canonical).1 resolved

end Walking

section Growing

variable {fs fs' fs'' : FileSystem} {path root : Place}

/-- Nothing but directories came, each in a free place on the way to a path. -/
def Grown (fs fs' : FileSystem) (path : Place) : Prop :=
  ∀ place, fs'.entry place = fs.entry place ∨
    place <+: path ∧ fs.entry place = none ∧ fs'.entry place = some .dir

theorem Grown.refl (fs : FileSystem) (path : Place) : Grown fs fs path := fun _ => .inl rfl

theorem Grown.trans (first : Grown fs fs' path) (second : Grown fs' fs'' path) :
    Grown fs fs'' path := by
  intro place
  rcases second place with same | ⟨before, free, dir⟩
  · rw [same]
    exact first place
  · rcases first place with same | ⟨-, -, taken⟩
    · exact .inr ⟨before, same ▸ free, dir⟩
    · rw [free] at taken
      cases taken

theorem Grown.longer {front : Place} (grown : Grown fs fs' front) (before : front <+: path) :
    Grown fs fs' path :=
  fun place => (grown place).imp id fun made => ⟨made.1.trans before, made.2⟩

theorem Plain.grown (plain : Plain fs path) (grown : Grown fs fs' path) : Plain fs' path := by
  intro front before absolute target
  rcases grown front with same | ⟨-, -, dir⟩
  · rw [same]
    exact plain front before absolute target
  · rw [dir]
    nofun

theorem mkdir_grown (plain : Plain fs path) (made : mkdir fs path = .ok fs') :
    Grown fs fs' path := by
  rcases eq_nil_or_concat' path with rfl | ⟨front, name, rfl⟩
  · cases made
  · rw [mkdir, getLast?_concat, dropLast_concat] at made
    dsimp only at made
    split at made
    case h_1 => cases made
    case h_2 place found =>
      have here := lookup_of_plain (plain.above (prefix_append _ _)) found
      subst here
      split at made
      case isFalse => cases made
      case isTrue dir =>
        split at made
        case isFalse => cases made
        case isTrue free =>
          cases made
          intro other
          by_cases same : other = place ++ [name]
          · exact .inr ⟨same ▸ prefix_rfl, same ▸ free, if_pos same⟩
          · exact .inl (if_neg same)

/-- Along a path without links, directories are made on the way to it and nowhere else. -/
theorem createDirAll_grown (fs : FileSystem) (path : Place) (plain : Plain fs path) :
    Grown fs (createDirAll fs path).1 path := by
  induction path using List.reverseRecOn with
  | nil =>
    rw [createDirAll, dif_pos rfl]
    exact .refl _ _
  | append_singleton path name ih =>
    have before : path <+: path ++ [name] := prefix_append _ _
    have parents := (ih (plain.above before)).longer before
    rw [createDirAll, dif_neg (by simp), dropLast_concat]
    split
    case h_1 made => exact mkdir_grown plain made
    case h_2 =>
      split
      case h_1 between done =>
        rw [done] at parents
        exact parents
      case h_2 between done =>
        rw [done] at parents
        split
        case h_1 made => exact parents.trans (mkdir_grown (plain.grown parents) made)
        case h_2 => exact parents
    case h_3 => exact .refl _ _

theorem below_of_free {place : Place} (root_ : fs.entry root ≠ none) (below : root <+: path)
    (before : place <+: path) (free : fs.entry place = none) : root <+: place := by
  rcases prefix_or_prefix_of_prefix below before with inside | outside
  · exact inside
  · by_cases same : place = root
    · exact same ▸ prefix_rfl
    · rw [dir_above root_ outside same] at free
      cases free

end Growing

section Claim

variable {fs : FileSystem} {root path : Place}

/-- The path is at or below the root and has no link on its way: a lookup of it, also one that
creates a file, ends at the path itself, and making its missing directories changes nothing outside
the root. -/
structure Contained (fs : FileSystem) (root path : Place) : Prop where
  below : root <+: path
  plain : Plain fs path
  opened : ∀ mode place, lookup fs mode path = .ok place → place = path
  created : ∀ place, (createDirAll fs path).1.entry place ≠ fs.entry place → root <+: place

/-- A directory entry of a contained path; a link there is named and not followed. -/
structure EntryContained (fs : FileSystem) (root path : Place) : Prop where
  parent : ∃ parent name, path = parent ++ [name] ∧ Contained fs root parent
  named : ∀ place, lookup fs .noFollow path = .ok place → place = path
  unlinked : (∀ absolute target, fs.entry path ≠ some (.link absolute target)) →
    Contained fs root path

theorem contained_of_plain (root_ : fs.entry root ≠ none) (below : root <+: path)
    (plain : Plain fs path) : Contained fs root path := by
  refine ⟨below, plain, fun mode place => lookup_of_plain plain, fun place changed => ?_⟩
  obtain ⟨before, free, -⟩ := (createDirAll_grown fs path plain place).resolve_left changed
  exact below_of_free root_ below before free

/-- A lookup that does not follow a last link ends at the path, where its directories have no
link. -/
theorem walk_entry {links : Nat} {place found : Place} (rest : List Name) (name : Name)
    (plain : Plain fs (place ++ rest))
    (walked : walk fs .noFollow links place ((rest ++ [name]).map .down) = .ok found) :
    found = place ++ (rest ++ [name]) := by
  induction rest generalizing place with
  | nil =>
    rw [nil_append, map_singleton, walk] at walked
    split at walked
    case h_1 => cases walked
    case h_2 =>
      rw [walk] at walked
      cases walked
      rfl
    case h_3 =>
      cases walked
      rfl
    case h_4 =>
      rw [if_pos ⟨rfl, rfl⟩] at walked
      cases walked
      rfl
  | cons next rest ih =>
    have whole : place ++ next :: rest = place ++ [next] ++ rest := by simp
    have here := plain (place ++ [next]) (whole ▸ prefix_append _ _)
    have more : (rest ++ [name]).map Step.down ≠ [] := by simp
    rw [cons_append, map_cons, walk] at walked
    split at walked
    case h_1 => cases walked
    case h_2 => rw [ih (whole ▸ plain) walked, append_assoc, singleton_append, cons_append]
    case h_3 =>
      rw [if_neg more] at walked
      cases walked
    case h_4 absolute target there => exact absurd there (here absolute target)

theorem lookup_entry {name : Name} {place : Place} (plain : Plain fs path)
    (found : lookup fs .noFollow (path ++ [name]) = .ok place) : place = path ++ [name] :=
  walk_entry path name plain found

/-- What the two resolvers give stays in the workspace. -/
theorem resolve_contained (canonical : canonicalize fs root = .ok root) (relative : List Char) :
    (∀ path, resolveInside fs root relative = some path → Contained fs root path) ∧
      ∀ path, resolveEntryInside fs root relative = some path → EntryContained fs root path := by
  have root_ := (canonical_plain canonical).2
  constructor
  · intro path resolved
    obtain ⟨below, plain⟩ := resolveComponents_plain canonical resolved
    exact contained_of_plain root_ below plain
  · intro path resolved
    rw [resolveEntryInside] at resolved
    split at resolved
    case h_2 => cases resolved
    case h_1 name _ =>
      obtain ⟨parent, inside, rfl⟩ := Option.map_eq_some_iff.mp resolved
      obtain ⟨below, plain⟩ := resolveComponents_plain canonical inside
      refine ⟨⟨parent, name, rfl, contained_of_plain root_ below plain⟩, fun place =>
        lookup_entry plain, ?_⟩
      intro last
      exact contained_of_plain root_ (below.trans (prefix_append _ _)) (plain.snoc last)

/-- A workspace with two links in it, one to the root of the file system and one to a directory
beside it. -/
def linked : FileSystem where
  entry place :=
    if place = [] then some .dir
    else if place = [['w']] then some .dir
    else if place = [['w'], ['d']] then some .dir
    else if place = [['w'], ['o']] then some (.link true [])
    else if place = [['w'], ['i']] then some (.link false [.down ['d']])
    else none
  root := rfl
  inDir place name there := by
    rcases place with _ | ⟨first, _ | ⟨second, rest⟩⟩
    · rfl
    · by_cases workspace : first = ['w']
      · rw [workspace]
        rfl
      · simp [workspace] at there
    · simp at there

/-- Through the link that stays inside: what it leads to is named, not the link. -/
theorem resolve_contained_linked :
    resolveInside linked [['w']] ['i', '/', 'f'] = some [['w'], ['d'], ['f']] ∧
      Contained linked [['w']] [['w'], ['d'], ['f']] ∧
        resolveEntryInside linked [['w']] ['i'] = some [['w'], ['i']] ∧
          EntryContained linked [['w']] [['w'], ['i']] := by
  have canonical : canonicalize linked [['w']] = .ok [['w']] := by
    simp [canonicalize, lookup, walk, linked]
  have inside : resolveInside linked [['w']] ['i', '/', 'f'] = some [['w'], ['d'], ['f']] := by
    have parsed : components ['i', '/', 'f'] = [.normal ['i'], .normal ['f']] := by decide
    simp [resolveInside, parsed, resolveComponents, resolveFrom, symlinkMetadataIsOk, canonicalize,
      lookup, walk, linked, maxLinks]
  have entry : resolveEntryInside linked [['w']] ['i'] = some [['w'], ['i']] := by
    have parsed : components ['i'] = [.normal ['i']] := by decide
    simp [resolveEntryInside, parsed, resolveComponents, resolveFrom]
  exact ⟨inside, (resolve_contained canonical ['i', '/', 'f']).1 _ inside, entry,
    (resolve_contained canonical ['i']).2 _ entry⟩

/-- The link that leads out is refused. -/
example : resolveInside linked [['w']] ['o'] = none := by
  have parsed : components ['o'] = [.normal ['o']] := by decide
  simp [resolveInside, parsed, resolveComponents, resolveFrom, symlinkMetadataIsOk, canonicalize,
    lookup, walk, linked, maxLinks]

end Claim

end ForgeNode.Containment
