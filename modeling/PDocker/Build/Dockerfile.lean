import PDocker.Build.Location

/-!
# Dockerfiles built from two places

Runs of `FROM`, `WORKDIR`, `COPY` and `ADD`. Materializing a base image and taking
a snapshot after a copy are parameters, which do not get the context. Two runs
whose contexts stand in different directories give the same tree, as long as the
name of the context directory itself is not used.
-/

set_option autoImplicit false

namespace PDocker.Build

open Data Posix Posix.FS

/-- What the instructions call: the base image of `FROM` with its working directory and layers, and
the snapshot after a copy, which is told the places of the copies and whether something was removed
there before. -/
structure Builder (Layers : Type) where
  materialize : Text → FS → Option (FS × Text × Layers)
  snapshot : Layers → List (List Name × Bool) → FS → Option (FS × Layers)

structure Built (Layers : Type) where
  fs : FS
  workdir : Text
  layers : Layers
  /-- A `FROM` came before. -/
  begun : Bool

inductive DockerInstruction where
  | base (image : Text)
  | workdir (args : Text)
  | copy (sources : List Text) (dest : Text)

def Source.isDir : Source → Bool
  | .dir _ => true
  | .file _ => false

/-- `copy_changed`, each with whether it is in `copy_deleted` too. -/
def copied (target : List Name) : FS → List (Option (Bool × Match)) → List (List Name × Bool)
  | _, [] => []
  | _, none :: _ => []
  | fs, some (into, found) :: more =>
      (destination fs target into found, found.source.isDir && fs.pathExists (destination fs target into found)) ::
        copied target (copyMatch fs target into found).1 more

section
variable {Layers : Type}

/-- One instruction of `execute_dockerfile_build`, with the matches of a source; `none` when the build fails. -/
def execute (builder : Builder Layers) (rootfs : Path) (find : Text → List Match) (state : Built Layers) :
    DockerInstruction → Option (Built Layers)
  | .base image =>
      (builder.materialize image state.fs).map fun made => ⟨made.1, made.2.1, made.2.2, true⟩
  | .workdir args =>
      let made := state.fs.makedirs (inRootfs rootfs (fullWorkdir args))
      if state.begun && made.2 then some { state with fs := made.1, workdir := fullWorkdir args } else none
  | .copy sources dest =>
      if sources = [] then some state
      else
        let full := fullDest state.workdir dest
        let ensured := ensureRootfsDirPath state.fs rootfs (ensuredDir rootfs full)
        let jobs := jobs (endsWithSlash full) (sources.map find)
        let done := copyInstruction rootfs ⟨state.fs, state.workdir, false⟩ dest (sources.map find)
        if state.begun && done.2 then
          (builder.snapshot state.layers (copied (inRootfs rootfs full) ensured.1 jobs) done.1).map fun after =>
            { state with fs := after.1, layers := after.2 }
        else none

def executeAll (builder : Builder Layers) (rootfs : Path) (find : Text → List Match) :
    Built Layers → List DockerInstruction → Option (Built Layers)
  | state, [] => some state
  | state, instruction :: more =>
      (execute builder rootfs find state instruction).bind fun after => executeAll builder rootfs find after more

def treeJobs (slash : Bool) (sources : List (List Found)) : List (Option (Bool × Found)) :=
  sources.flatMap fun matches_ =>
    if matches_ = [] then [none]
    else matches_.map fun found => some (decide (1 < matches_.length) || slash, found)

/-- Where the context itself is copied, it is copied to the target under the target's own name. -/
def Anonymous (target : List Name) (root : Name) (plain : PlainName root) : FS → List (Option (Bool × Found)) → Prop
  | _, [] => True
  | _, none :: _ => True
  | fs, some (into, found) :: more =>
      (found.path = [] → into = false ∧ fs.isdir target = false) ∧
        ((copyMatch fs target into (found.named root plain)).2 = true →
          Anonymous target root plain (copyMatch fs target into (found.named root plain)).1 more)

instance decidableAnonymous {target : List Name} {root : Name} {plain : PlainName root} :
    (fs : FS) → (jobs : List (Option (Bool × Found))) → Decidable (Anonymous target root plain fs jobs)
  | _, [] => .isTrue trivial
  | _, none :: _ => .isTrue trivial
  | fs, some (into, found) :: more =>
      have := @decidableAnonymous target root plain (copyMatch fs target into (found.named root plain)).1 more
      inferInstanceAs (Decidable (_ ∧ _))

def namedJobs (root : Name) (plain : PlainName root) (jobs : List (Option (Bool × Found))) :
    List (Option (Bool × Match)) :=
  jobs.map fun job => job.map fun pair => (pair.1, pair.2.named root plain)

theorem jobs_named (slash : Bool) (root : Name) (plain : PlainName root) (sources : List (List Found)) :
    jobs slash (sources.map (List.map (Found.named · root plain))) = namedJobs root plain (treeJobs slash sources) := by
  rw [jobs, namedJobs, treeJobs, List.flatMap_map, List.map_flatMap]
  refine List.flatMap_congr fun found _ => ?_
  rw [List.length_map]
  by_cases empty : found = []
  · rw [if_pos empty, if_pos (List.map_eq_nil_iff.mpr empty)]
    rfl
  · rw [if_neg empty, if_neg fun none => empty (List.map_eq_nil_iff.mp none), List.map_map, List.map_map]
    rfl

variable {fs : FS} {target : List Name} {into : Bool} {found : Found} {first second : Name}

theorem destination_named (plain : PlainName first) (plain' : PlainName second)
    (unused : found.path = [] → into = false ∧ fs.isdir target = false) :
    destination fs target into (found.named first plain) = destination fs target into (found.named second plain') := by
  unfold destination
  split
  · rename_i uses
    have inner : found.path ≠ [] := by
      intro root
      simp [unused root] at uses
    obtain ⟨above, last, shape⟩ := (List.eq_nil_or_concat found.path).resolve_left inner
    have name : ∀ (root : Name) (plain : PlainName root), (found.named root plain).name = last := by
      intro root plain
      show found.path.getLast?.getD root = last
      rw [shape, List.concat_eq_append, List.getLast?_concat]
      rfl
    rw [name, name]
  · rfl

theorem copyMatch_named (plain : PlainName first) (plain' : PlainName second)
    (unused : found.path = [] → into = false ∧ fs.isdir target = false) :
    copyMatch fs target into (found.named first plain) = copyMatch fs target into (found.named second plain') := by
  rw [copyMatch, copyMatch, destination_named plain plain' unused]
  rfl

theorem copyAll_named (plain : PlainName first) (plain' : PlainName second) {jobs : List (Option (Bool × Found))}
    (anonymous : Anonymous target first plain fs jobs) :
    copyAll target fs (namedJobs first plain jobs) = copyAll target fs (namedJobs second plain' jobs) ∧
      ((copyAll target fs (namedJobs first plain jobs)).2 = true →
        copied target fs (namedJobs first plain jobs) = copied target fs (namedJobs second plain' jobs)) := by
  induction jobs generalizing fs with
  | nil => exact ⟨rfl, fun _ => rfl⟩
  | cons job more ih =>
      cases job with
      | none => exact ⟨rfl, fun _ => rfl⟩
      | some pair =>
          obtain ⟨into, found⟩ := pair
          have same := copyMatch_named plain plain' anonymous.1
          have place := destination_named plain plain' anonymous.1
          have shape : ∀ (root : Name) (plain : PlainName root), namedJobs root plain (some (into, found) :: more) =
              some (into, found.named root plain) :: namedJobs root plain more := fun _ _ => rfl
          rw [shape, shape, copyAll, copyAll, copied, copied, ← same, ← place]
          cases done : (copyMatch fs target into (found.named first plain)).2 with
          | false =>
              rw [if_neg Bool.false_ne_true, if_neg Bool.false_ne_true, done]
              exact ⟨rfl, fun same => by cases same⟩
          | true =>
              rw [if_pos rfl, if_pos rfl]
              have rest := ih (anonymous.2 done)
              refine ⟨rest.1, fun success => ?_⟩
              rw [rest.2 success]
              rfl

structure Place (tree : FS) where
  host : FS
  above : Path
  root : Name
  plain : PlainName root
  hosts : Hosts host (above ++ [root]) tree

namespace Place

variable {tree : FS}

def contextDir (place : Place tree) : Path := place.above ++ [place.root]

def find (place : Place tree) (depth : Nat) (source : Text) : List Match :=
  findSource place.host depth place.contextDir source

end Place

/-- What an instruction has to meet, for contexts at two places. -/
def Independent (tree : FS) (depth : Nat) (one two : Place tree) (rootfs : Path) (state : Built Layers) :
    DockerInstruction → Prop
  | .base _ | .workdir _ => True
  | .copy sources dest =>
      let full := fullDest state.workdir dest
      let ensured := ensureRootfsDirPath state.fs rootfs (ensuredDir rootfs full)
      (∀ source ∈ sources, SourceStays tree depth (partsOf source) ∧
        ((partsOf source).any hasMagic = true →
          one.contextDir.any hasMagic = false ∧ two.contextDir.any hasMagic = false)) ∧
        (ensured.2 = true → Anonymous (inRootfs rootfs full) one.root one.plain ensured.1
          (treeJobs (endsWithSlash full) (sources.map (treeSource tree depth))))

def AllIndependent (builder : Builder Layers) (tree : FS) (depth : Nat) (one two : Place tree) (rootfs : Path) :
    Built Layers → List DockerInstruction → Prop
  | _, [] => True
  | state, instruction :: more =>
      Independent tree depth one two rootfs state instruction ∧
        ∀ after, execute builder rootfs (one.find depth) state instruction = some after →
          AllIndependent builder tree depth one two rootfs after more

variable {builder : Builder Layers} {tree : FS} {depth : Nat} {rootfs : Path} {one two : Place tree}

theorem execute_same (closed : Closed tree depth) {state : Built Layers} {instruction : DockerInstruction}
    (independent : Independent tree depth one two rootfs state instruction) :
    execute builder rootfs (one.find depth) state instruction =
      execute builder rootfs (two.find depth) state instruction := by
  cases instruction with
  | base image | workdir args => rw [execute, execute]
  | copy sources dest =>
      obtain ⟨stays, anonymous⟩ := independent
      have found : ∀ place : Place tree, (∀ source ∈ sources, (partsOf source).any hasMagic = true →
            place.contextDir.any hasMagic = false) →
          sources.map (place.find depth) =
            (sources.map (treeSource tree depth)).map (List.map (Found.named · place.root place.plain)) := by
        intro place literal
        rw [List.map_map]
        refine List.map_congr_left fun source member => ?_
        exact findSource_hosts place.hosts closed place.plain (stays source member).1 (literal source member)
      have first := found one fun source member magic => ((stays source member).2 magic).1
      have second := found two fun source member magic => ((stays source member).2 magic).2
      simp only [execute, copyInstruction, first, second, jobs_named]
      split
      · rfl
      cases made : (ensureRootfsDirPath state.fs rootfs (ensuredDir rootfs (fullDest state.workdir dest))).2 with
      | false => simp [made]
      | true =>
          have same := copyAll_named one.plain two.plain (anonymous made)
          rw [if_pos rfl, if_pos rfl, ← same.1]
          split
          · rename_i done
            rw [same.2 (Bool.and_eq_true_iff.mp done).2]
          · rfl

end

theorem closed_of_noLink {tree : FS} (noLink : ∀ path, tree.isSymlinkAt path = false) (depth : Nat) :
    Closed tree depth := by
  intro raw noUp
  constructor
  · have kept : ∀ later, Comes tree ([], raw) later → dotdot ∉ later.2 := by
      intro later comes
      induction comes with
      | refl => exact noUp
      | @tail between last _ step ih =>
          obtain ⟨cur, left⟩ := between
          cases left with
          | nil => cases step
          | cons name rest =>
              have fewer : dotdot ∉ rest := fun member => ih (List.mem_cons_of_mem _ member)
              rw [nextWalker] at step
              split at step
              · cases step
                exact fewer
              split at step
              · cases step
                exact fewer
              split at step
              · rename_i target found
                have link := noLink (cur ++ [name])
                rw [isSymlinkAt_of_get found] at link
                cases link
              · cases step
                exact fewer
    intro later comes leaving
    cases leaving with
    | inl up => exact kept later comes (List.mem_of_mem_head? up.2)
    | inr link =>
        obtain ⟨name, target, -, -, -, found, -⟩ := link
        have none := noLink (later.1 ++ [name])
        rw [isSymlinkAt_of_get found] at none
        cases none
  · intro left later found
    suffices resolved : ∀ (raw : List Name) (cur : Path) (seen : Seen), ∃ path,
        tree.realFrom depth cur raw seen = none ∨ tree.realFrom depth cur raw seen = some (.resolved path, seen) by
      obtain ⟨path, none | some_⟩ := resolved raw [] []
      · rw [none] at found
        cases found
      · rw [some_] at found
        cases found
    intro raw cur seen
    cases depth with
    | zero => exact ⟨[], .inl rfl⟩
    | succ depth =>
        rw [realFrom]
        induction raw generalizing cur with
        | nil => exact ⟨cur, .inr rfl⟩
        | cons name rest ih =>
            rw [joinReal]
            split
            · exact ih cur
            split
            · exact ih cur.dropLast
            split
            · rename_i target found
              have link := noLink (cur ++ [name])
              rw [isSymlinkAt_of_get found] at link
              cases link
            · exact ih (cur ++ [name])

private def contextTree : FS := .populate [.file (pathOf "f") [1]]

private def firstPlace : Place contextTree where
  host := .populate [.dir (pathOf "tmp/a"), .file (pathOf "tmp/a/f") [1]]
  above := pathOf "tmp"
  root := ['a']
  plain := by decide
  hosts := hosts_of_rows (by decide +kernel) (by decide +kernel)

private def secondPlace : Place contextTree where
  host := .populate [.dir (pathOf "var/b"), .file (pathOf "var/b/f") [1]]
  above := pathOf "var"
  root := ['b']
  plain := by decide
  hosts := hosts_of_rows (by decide +kernel) (by decide +kernel)

private def plainBuilder : Builder Unit where
  materialize _ fs := some ((fs.makedirs (pathOf "r")).1, ['/'], ())
  snapshot layers _ fs := some (fs, layers)

private def empty : Built Unit := ⟨.populate [], ['/'], (), false⟩

end PDocker.Build
