import Mathlib.Data.Finset.Dedup
import PDocker.Data.Table
import PDocker.Overlay.Shadow
import PDocker.Layers.MergeOverlay

/-!
# The path index of a stack of layers

`_build_layer_index` computes which paths a merge would have, and the layer
entry behind each, without building the merged tree: every layer is walked
once and the index edited on the way. The last few indexes are kept in a cache.
-/

set_option autoImplicit false

namespace PDocker.Layers

open Posix Overlay Data

abbrev LayerIndex := Table Path Path

def deleteLayerIndexPath (index : LayerIndex) (relPath : Path) : LayerIndex :=
  index.eraseWhere fun key => relPath <+: key

def pathIsSkipped (skip : Finset Path) (path : Path) : Bool :=
  path ∈ skip ∨ ∃ sp ∈ skip, Below sp path

def indexWhiteout (rel : Path) (index : LayerIndex) (name : Name) : LayerIndex :=
  if isWhiteoutFile name then
    deleteLayerIndexPath index (rel ++ [name.drop whiteoutPrefix.length])
  else index

def indexName (tree : Path) (skip : Finset Path) (rel : Path) (index : LayerIndex) (name : Name) :
    LayerIndex :=
  if isMarker name then index
  else if pathIsSkipped skip (rel ++ [name]) then index
  else index.insert (rel ++ [name]) (tree ++ rel ++ [name])

def indexVisit (tree : Path) (skip : Finset Path) (index : LayerIndex) (rel : Path)
    (dirs files : List Name) : LayerIndex :=
  let opened :=
    if opaqueMarker ∈ files then
      if rel = [] then ∅ else index.eraseWhere fun key => Below rel key
    else index
  (dirs ++ files).foldl (indexName tree skip rel) (files.foldl (indexWhiteout rel) opened)

def indexLayer (fs : FS) (tree : Path) (skip : Finset Path) (index : LayerIndex) : LayerIndex :=
  osWalk (fun _ => fs) tree (indexVisit tree skip) (fs.height + 1) [] index

def indexLayers (fs : FS) (layersDir : Path) (skip : Finset Path) :
    LayerIndex → List Name → Except MergeError LayerIndex
  | index, [] => .ok index
  | index, did :: rest =>
      if fs.isdir (layerTree layersDir did) then
        indexLayers fs layersDir skip (indexLayer fs (layerTree layersDir did) skip index) rest
      else .error (.layerNotExtracted did)

abbrev CacheKey := List Name × Finset Path

abbrev IndexCache := Table CacheKey LayerIndex

def layerIndexCacheKey (dids : List Name) (skip : Finset Path) : CacheKey :=
  (dids.map bareDiffId, skip)

/-- `_layer_index_cache_get`: a layer that is gone clears the whole cache. -/
def layerIndexCacheGet (limit : Int) (layersDir : Path) (fs : FS) (cache : IndexCache)
    (key : CacheKey) : Option LayerIndex × IndexCache :=
  if limit ≤ 0 then (none, cache)
  else if key.1.any fun bare => !fs.isdir (extractedTree layersDir bare) then (none, ∅)
  else
    match cache.lookup key with
    | none => (none, cache)
    | some cached => (some cached, cache.insert key cached)

def layerIndexCachePut (limit : Int) (cache : IndexCache) (key : CacheKey) (index : LayerIndex) :
    IndexCache :=
  if limit ≤ 0 then cache else cache.putBounded limit.toNat key index

def buildLayerIndex (limit : Int) (layersDir : Path) (fs : FS) (cache : IndexCache)
    (dids : List Name) (skipPaths : List Path) : Except MergeError LayerIndex × IndexCache :=
  let skip := skipPaths.toFinset
  let key := layerIndexCacheKey dids skip
  match layerIndexCacheGet limit layersDir fs cache key with
  | (some cached, used) => (.ok cached, used)
  | (none, used) =>
      match indexLayers fs layersDir skip ∅ dids with
      | .error error => (.error error, used)
      | .ok index => (.ok index, layerIndexCachePut limit used key index)

structure IndexRequest where
  fs : FS
  dids : List Name
  skipPaths : List Path

def cacheAfter (limit : Int) (layersDir : Path) : List IndexRequest → IndexCache
  | [] => ∅
  | request :: earlier =>
      (buildLayerIndex limit layersDir request.fs (cacheAfter limit layersDir earlier)
        request.dids request.skipPaths).2

def sourceView (fs : FS) (layer : Path) : View Path := fun path =>
  (fs.get (layer ++ path)).map fun _ => layer ++ path

section
variable {fs : FS} {tree rel path : Path} {skip : Finset Path}

theorem isSome_sourceView : (sourceView fs tree path).isSome = (view fs tree path).isSome := by
  simp [sourceView, view, FS.obs]

/-- The path that the layer `tree` contributes to the index as a name of the
directory `rel`. -/
def Adds (fs : FS) (tree : Path) (skip : Finset Path) (rel path : Path) : Prop :=
  ∃ name, path = rel ++ [name] ∧ fs.get (tree ++ path) ≠ none ∧ isMarker name = false ∧
    pathIsSkipped skip path = false

theorem lookup_deleteLayerIndexPath (index : LayerIndex) (relPath path : Path) :
    (deleteLayerIndexPath index relPath).lookup path =
      if relPath <+: path then none else index.lookup path := by
  simp [deleteLayerIndexPath, Table.lookup_eraseWhere]

private theorem lookup_deletions (names : List Name) (rel path : Path) : ∀ index : LayerIndex,
      ((∃ name ∈ names, isWhiteoutFile name = true ∧
          rel ++ [name.drop whiteoutPrefix.length] <+: path) →
        (names.foldl (indexWhiteout rel) index).lookup path = none) ∧
      ((∀ name ∈ names, isWhiteoutFile name = true →
          ¬ rel ++ [name.drop whiteoutPrefix.length] <+: path) →
        (names.foldl (indexWhiteout rel) index).lookup path = index.lookup path) := by
  induction names with
  | nil => simp
  | cons name names ih =>
      intro index
      rw [List.foldl_cons]
      by_cases later : ∃ name ∈ names, isWhiteoutFile name = true ∧
          rel ++ [name.drop whiteoutPrefix.length] <+: path
      · constructor
        · exact fun _ => (ih _).1 later
        · intro none_
          obtain ⟨other, member, whiteout, below⟩ := later
          exact absurd below (none_ other (by simp [member]) whiteout)
      have rest := (ih (indexWhiteout rel index name)).2 fun other member whiteout below => later ⟨other, member, whiteout, below⟩
      rw [rest]
      constructor
      · intro some_
        obtain ⟨other, member, whiteout, below⟩ := some_
        cases List.mem_cons.mp member with
        | inl first =>
            subst first
            simp [indexWhiteout, whiteout, lookup_deleteLayerIndexPath, below]
        | inr old => exact absurd ⟨other, old, whiteout, below⟩ later
      · intro none_
        cases whiteout : isWhiteoutFile name with
        | false => simp [indexWhiteout, whiteout]
        | true =>
            simp [indexWhiteout, whiteout, lookup_deleteLayerIndexPath, none_ name (by simp) whiteout]

private theorem lookup_additions (names : List Name) (tree rel path : Path) (skip : Finset Path) :
    ∀ index : LayerIndex, ((∃ name ∈ names, path = rel ++ [name] ∧ isMarker name = false ∧
          pathIsSkipped skip path = false) →
        (names.foldl (indexName tree skip rel) index).lookup path = some (tree ++ path)) ∧
      ((∀ name ∈ names, path = rel ++ [name] → isMarker name = false → pathIsSkipped skip path = true) →
        (names.foldl (indexName tree skip rel) index).lookup path = index.lookup path) := by
  induction names with
  | nil => simp
  | cons name names ih =>
      intro index
      rw [List.foldl_cons]
      by_cases later : ∃ name ∈ names, path = rel ++ [name] ∧ isMarker name = false ∧
          pathIsSkipped skip path = false
      · constructor
        · exact fun _ => (ih _).1 later
        intro none_
        obtain ⟨other, member, shape, plain, kept⟩ := later
        rw [none_ other (by simp [member]) shape plain] at kept
        cases kept
      have rest := (ih (indexName tree skip rel index name)).2 (by
        intro other member shape plain
        by_contra kept
        exact later ⟨other, member, shape, plain, by simpa using kept⟩)
      rw [rest]
      constructor
      · intro some_
        obtain ⟨other, member, shape, plain, kept⟩ := some_
        cases List.mem_cons.mp member with
        | inl first =>
            subst first
            subst shape
            simp [indexName, plain, kept]
        | inr old => exact absurd ⟨other, old, shape, plain, kept⟩ later
      · intro none_
        cases marker : isMarker name with
        | true => simp [indexName, marker]
        | false =>
            cases skipped : pathIsSkipped skip (rel ++ [name]) with
            | true => simp [indexName, marker, skipped]
            | false =>
                have different : path ≠ rel ++ [name] := by
                  intro same
                  have skippedHere := none_ name (by simp) same marker
                  rw [same, skipped] at skippedHere
                  cases skippedHere
                simp [indexName, marker, skipped, different]

theorem lookup_indexVisit (marked : WellMarked fs tree) (directory : fs.isDirAt (tree ++ rel) = true)
    (index : LayerIndex) (root : index.lookup [] = none) :
    let after := indexVisit tree skip index rel (fs.scanDirs (tree ++ rel))
      (fs.scanFiles (tree ++ rel))
    (Adds fs tree skip rel path → after.lookup path = some (tree ++ path)) ∧
      (¬ Adds fs tree skip rel path → (HiddenBy (view fs tree) rel path → after.lookup path = none) ∧
        (¬ HiddenBy (view fs tree) rel path → after.lookup path = index.lookup path)) := by
  intro after
  have listed : ∀ name, name ∈ fs.scanDirs (tree ++ rel) ++ fs.scanFiles (tree ++ rel) ↔
      fs.get (tree ++ (rel ++ [name])) ≠ none := by
    intro name
    rw [← List.append_assoc, ← FS.mem_scanFiles_append_scanDirs directory, List.mem_append,
      List.mem_append, or_comm]
  have adds : Adds fs tree skip rel path ↔
      ∃ name ∈ fs.scanDirs (tree ++ rel) ++ fs.scanFiles (tree ++ rel),
        path = rel ++ [name] ∧ isMarker name = false ∧ pathIsSkipped skip path = false := by
    constructor
    · intro added
      obtain ⟨name, rfl, present, plain, kept⟩ := added
      exact ⟨name, (listed name).mpr present, rfl, plain, kept⟩
    · intro added
      obtain ⟨name, member, rfl, plain, kept⟩ := added
      exact ⟨name, rfl, (listed name).mp member, plain, kept⟩
  have additions := lookup_additions (fs.scanDirs (tree ++ rel) ++ fs.scanFiles (tree ++ rel))
    tree rel path skip
  refine ⟨fun added => (additions _).1 (adds.mp added), fun notAdded => ?_⟩
  have unchanged : after.lookup path = _ := (additions _).2 (by
    intro name member shape plain
    by_contra kept
    exact notAdded (adds.mpr ⟨name, member, shape, plain, by simpa using kept⟩))
  rw [unchanged]
  -- the opaque marker and the whiteouts of the directory
  have memOpaque : opaqueMarker ∈ fs.scanFiles (tree ++ rel) ↔
      opaqueAt (view fs tree) rel = true := mem_scanFiles_marker marked directory rfl
  have opened : ∀ index' : LayerIndex, index' = (if opaqueMarker ∈ fs.scanFiles (tree ++ rel) then
        if rel = [] then ∅ else index.eraseWhere fun key => Below rel key else index) →
      index'.lookup path =
        if opaqueAt (view fs tree) rel = true ∧ Below rel path then none else index.lookup path := by
    intro index' shape
    subst shape
    by_cases isOpaque : opaqueAt (view fs tree) rel = true
    · rw [if_pos (memOpaque.mpr isOpaque)]
      by_cases top : rel = []
      · subst top
        by_cases same : path = []
        · subst same
          simp [Below, root]
        · simp [isOpaque, Below, Ne.symm same]
      · rw [if_neg top, Table.lookup_eraseWhere]
        simp [isOpaque]
    · rw [if_neg fun member => isOpaque (memOpaque.mp member)]
      simp [isOpaque]
  have deletions := lookup_deletions (fs.scanFiles (tree ++ rel)) rel path
  have whiteoutIff : (∃ name ∈ fs.scanFiles (tree ++ rel), isWhiteoutFile name = true ∧
      rel ++ [name.drop whiteoutPrefix.length] <+: path) ↔
      ∃ name rest, path = rel ++ name :: rest ∧ whiteoutPrefix ++ name ≠ opaqueMarker ∧
        whiteoutAt (view fs tree) rel name = true := by
    constructor
    · intro whiteout
      obtain ⟨name, member, whiteout, rest, rfl⟩ := whiteout
      simp only [isWhiteoutFile, Bool.and_eq_true, decide_eq_true_eq] at whiteout
      refine ⟨name.drop whiteoutPrefix.length, rest, by simp, ?_, ?_⟩
      · rw [← eq_whiteout_of_isMarker whiteout.1]
        exact whiteout.2
      · rw [whiteoutAt, ← eq_whiteout_of_isMarker whiteout.1]
        exact (mem_scanFiles_marker marked directory whiteout.1).mp member
    · intro whiteout
      obtain ⟨name, rest, rfl, notOpaque, present⟩ := whiteout
      refine ⟨whiteoutPrefix ++ name,
        (mem_scanFiles_marker marked directory (isMarker_append name)).mpr present, ?_, rest, ?_⟩
      · simp [isWhiteoutFile, isMarker_append, notOpaque]
      · simp
  have hiddenIff : HiddenBy (view fs tree) rel path ↔
      (∃ name ∈ fs.scanFiles (tree ++ rel), isWhiteoutFile name = true ∧
        rel ++ [name.drop whiteoutPrefix.length] <+: path) ∨
      (opaqueAt (view fs tree) rel = true ∧ Below rel path) := by
    rw [whiteoutIff]
    constructor
    · intro hiddenHere
      obtain ⟨name, rest, rfl, marker⟩ := hiddenHere
      have below : Below rel (rel ++ name :: rest) := ⟨List.prefix_append _ _, by simp⟩
      by_cases isOpaque : opaqueAt (view fs tree) rel = true
      · exact .inr ⟨isOpaque, below⟩
      · have whiteout := marker.resolve_right isOpaque
        refine .inl ⟨name, rest, rfl, fun same => isOpaque ?_, whiteout⟩
        rwa [whiteoutAt, same] at whiteout
    · intro hiddenHere
      cases hiddenHere with
      | inl whiteout =>
          obtain ⟨name, rest, rfl, _, present⟩ := whiteout
          exact ⟨name, rest, rfl, .inl present⟩
      | inr isOpaque =>
          obtain ⟨isOpaque, ⟨rest, rfl⟩, proper⟩ := isOpaque
          cases rest with
          | nil => simp at proper
          | cons name rest => exact ⟨name, rest, rfl, .inr isOpaque⟩
  constructor
  · intro hiddenHere
    by_cases whiteout : ∃ name ∈ fs.scanFiles (tree ++ rel), isWhiteoutFile name = true ∧
        rel ++ [name.drop whiteoutPrefix.length] <+: path
    · exact (deletions _).1 whiteout
    · have isOpaque := (hiddenIff.mp hiddenHere).resolve_left whiteout
      rw [(deletions _).2 fun name member isWhiteout below =>
        whiteout ⟨name, member, isWhiteout, below⟩, opened _ rfl, if_pos isOpaque]
  · intro visible
    rw [(deletions _).2 fun name member isWhiteout below =>
      visible (hiddenIff.mpr (.inl ⟨name, member, isWhiteout, below⟩)), opened _ rfl,
      if_neg fun isOpaque => visible (hiddenIff.mpr (.inr isOpaque))]

end

end PDocker.Layers
