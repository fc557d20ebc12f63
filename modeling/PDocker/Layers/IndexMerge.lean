import PDocker.Layers.Index

/-!
# The index against the merge

Whatever the cache has seen before, an index reads as the union of its layers
without shadowing. The merge does shadow, so the two agree unless a layer turns
a directory into something else and leaves paths below it stale.
-/

set_option autoImplicit false

namespace PDocker.Layers

open Posix Overlay Data

def CleanIndex (skip : Finset Path) (index : LayerIndex) : Prop :=
  ∀ path source, index.lookup path = some source →
    path ≠ [] ∧ pathIsSkipped skip path = false ∧ hasMarker path = false

section
variable {fs : FS} {tree : Path} {skip : Finset Path} {index : LayerIndex}

theorem CleanIndex.lookup_eq_none (clean : CleanIndex skip index) {path : Path}
    (dirty : path = [] ∨ pathIsSkipped skip path = true ∨ hasMarker path = true) :
    index.lookup path = none := by
  cases found : index.lookup path with
  | none => rfl
  | some source =>
      obtain ⟨proper, kept, plain⟩ := clean path source found
      simp [proper, kept, plain] at dirty

/-- The index once the directories `visited` of the layer have been walked. -/
private structure Indexed (fs : FS) (tree : Path) (skip : Finset Path) (start : LayerIndex)
    (visited : List Path) (now : LayerIndex) : Prop where
  added : ∀ rel ∈ visited, ∀ path, Adds fs tree skip rel path → now.lookup path = some (tree ++ path)
  gone : ∀ path, (∀ rel, ¬ Adds fs tree skip rel path) →
    (∃ rel ∈ visited, HiddenBy (view fs tree) rel path) → now.lookup path = none
  kept : ∀ path, (∀ rel, ¬ Adds fs tree skip rel path) →
    (∀ rel ∈ visited, ¬ HiddenBy (view fs tree) rel path) → now.lookup path = start.lookup path

private theorem not_adds_root (rel : Path) : ¬ Adds fs tree skip rel [] := by
  intro added
  obtain ⟨name, shape, _⟩ := added
  simp at shape

private theorem not_hiddenBy_root (rel : Path) : ¬ HiddenBy (view fs tree) rel [] := by
  intro hiddenHere
  obtain ⟨name, rest, shape, _⟩ := hiddenHere
  simp at shape

private theorem indexed_visit {visited : List Path} {now : LayerIndex} {rel : Path}
    (marked : WellMarked fs tree) (clean : CleanIndex skip index)
    (indexed : Indexed fs tree skip index visited now) (here : fs.isDirAt (tree ++ rel) = true)
    (free : ∀ seen ∈ visited, ¬ rel <+: seen) :
    Indexed fs tree skip index (visited ++ [rel])
      (indexVisit tree skip now rel (fs.scanDirs (tree ++ rel)) (fs.scanFiles (tree ++ rel))) := by
  have root : now.lookup [] = none := by
    rw [indexed.kept [] not_adds_root fun rel _ => not_hiddenBy_root rel]
    exact clean.lookup_eq_none (.inl rfl)
  have visit := fun path => @lookup_indexVisit fs tree rel path skip marked here now root
  generalize indexVisit tree skip now rel (fs.scanDirs (tree ++ rel)) (fs.scanFiles (tree ++ rel))
    = after at visit
  refine ⟨?_, ?_, ?_⟩
  · intro seen member path added
    cases List.mem_append.mp member with
    | inl old =>
        obtain ⟨name, shape, _⟩ := id added
        subst shape
        have otherAdd : ¬ Adds fs tree skip rel (seen ++ [name]) := by
          intro again
          obtain ⟨other, same, _⟩ := again
          obtain ⟨equal, _⟩ := List.append_inj' same rfl
          exact free seen old (equal ▸ List.prefix_refl _)
        have notHidden : ¬ HiddenBy (view fs tree) rel (seen ++ [name]) := by
          intro hiddenHere
          obtain ⟨first, rest, same, _⟩ := hiddenHere
          exact free seen old (below_append_singleton.mp
            ⟨⟨first :: rest, same.symm⟩, by rw [same]; simp⟩)
        rw [((visit (seen ++ [name])).2 otherAdd).2 notHidden]
        exact indexed.added seen old _ added
    | inr new =>
        rw [List.mem_singleton.mp new] at added
        exact (visit path).1 added
  · intro path never hiddenHere
    by_cases last : HiddenBy (view fs tree) rel path
    · exact ((visit path).2 (never rel)).1 last
    rw [((visit path).2 (never rel)).2 last]
    apply indexed.gone path never
    obtain ⟨seen, member, hides⟩ := hiddenHere
    cases List.mem_append.mp member with
    | inl old => exact ⟨seen, old, hides⟩
    | inr new => exact absurd (List.mem_singleton.mp new ▸ hides) last
  · intro path never visible
    rw [((visit path).2 (never rel)).2 (visible rel (by simp))]
    exact indexed.kept path never fun seen member => visible seen (by simp [member])

theorem lookup_indexLayer (marked : WellMarked fs tree) (clean : CleanIndex skip index) (path : Path) :
    (indexLayer fs tree skip index).lookup path =
      if path = [] ∨ pathIsSkipped skip path = true then none
      else overlay (fun _ => true) (sourceView fs tree) (fun path => index.lookup path) path := by
  have rule : WalkInvariant (fun _ => fs) tree (indexVisit tree skip)
      (fun rel => fs.isDirAt (tree ++ rel)) (Indexed fs tree skip index) :=
    ⟨fun _ _ => rfl, fun indexed here _ free => indexed_visit marked clean indexed here free⟩
  obtain ⟨visited, indexed, members⟩ := osWalk_rule rule (fs.height + 1) index
    (fun _ => FS.length_lt_of_isDirAt_append) ⟨by simp, by simp, fun _ _ _ => rfl⟩
    (by simpa using marked.directory)
  change Indexed fs tree skip index visited (indexLayer fs tree skip index) at indexed
  have adds : ∀ {rel : Path}, Adds fs tree skip rel path →
      path ≠ [] ∧ pathIsSkipped skip path = false ∧ hasMarker path = false := by
    intro rel added
    obtain ⟨name, rfl, present, plain, kept⟩ := added
    obtain ⟨entry, found⟩ := Option.ne_none_iff_exists'.mp present
    rw [← List.append_assoc] at found
    have above := marked.markerFiles.hasMarker_of_isDirAt (FS.isDirAt_parent found)
    exact ⟨by simp, kept, by rw [hasMarker_append, above, hasMarker_singleton, plain]; rfl⟩
  -- a dirty path is neither added nor was it there before
  have absent : path = [] ∨ pathIsSkipped skip path = true ∨ hasMarker path = true →
      (indexLayer fs tree skip index).lookup path = none := by
    intro dirty
    have never : ∀ rel, ¬ Adds fs tree skip rel path := by
      intro rel added
      obtain ⟨proper, kept, plain⟩ := adds added
      simp [proper, kept, plain] at dirty
    by_cases hiddenHere : ∃ rel ∈ visited, HiddenBy (view fs tree) rel path
    · exact indexed.gone path never hiddenHere
    · rw [indexed.kept path never fun rel member hides => hiddenHere ⟨rel, member, hides⟩]
      exact clean.lookup_eq_none dirty
  by_cases proper : path = [] ∨ pathIsSkipped skip path = true
  · rw [if_pos proper]
    exact absent (by cases proper with
      | inl root => exact .inl root
      | inr skipped => exact .inr (.inl skipped))
  rw [if_neg proper]
  simp only [not_or, Bool.not_eq_true] at proper
  cases plain : hasMarker path with
  | true =>
      rw [overlay_of_hasMarker plain]
      exact absent (.inr (.inr plain))
  | false =>
      cases found : fs.get (tree ++ path) with
      | some entry =>
          obtain ⟨parent, name, rfl⟩ := (List.eq_nil_or_concat path).resolve_left proper.1
          rw [List.concat_eq_append] at *
          have source : sourceView fs tree (parent ++ [name]) = some (tree ++ (parent ++ [name])) := by
            simp only [sourceView, found, Option.map_some]
          rw [overlay_of_upper plain source]
          rw [hasMarker_append, hasMarker_singleton, Bool.or_eq_false_iff] at plain
          have directory : fs.isDirAt (tree ++ parent) = true := by
            rw [← List.append_assoc] at found
            exact FS.isDirAt_parent found
          exact indexed.added parent ((members parent).mpr directory) _
            ⟨name, rfl, by rw [found]; exact Option.some_ne_none _, plain.2, proper.2⟩
      | none =>
          have source : sourceView fs tree path = none := by
            simp only [sourceView, found, Option.map_none]
          have never : ∀ rel, ¬ Adds fs tree skip rel path := by
            intro rel added
            obtain ⟨_, _, present, _⟩ := added
            exact present found
          rw [overlay_of_not_upper plain source, shadowed_true, Bool.or_false,
            hidden_congr fun _ => isSome_sourceView]
          cases hiddenHere : hidden (view fs tree) path with
          | true =>
              obtain ⟨rel, name, rest, rfl, markers⟩ := hidden_iff_hiddenBy.mp hiddenHere
              rw [if_pos rfl]
              refine indexed.gone _ never ⟨rel, (members rel).mpr ?_, name, rest, rfl, markers⟩
              cases markers with
              | inl whiteout =>
                  obtain ⟨entry, marker⟩ := Option.ne_none_iff_exists'.mp (isSome_view.mp whiteout)
                  rw [← List.append_assoc] at marker
                  exact FS.isDirAt_parent marker
              | inr isOpaque =>
                  obtain ⟨entry, marker⟩ := Option.ne_none_iff_exists'.mp (isSome_view.mp isOpaque)
                  rw [← List.append_assoc] at marker
                  exact FS.isDirAt_parent marker
          | false =>
              rw [if_neg Bool.false_ne_true]
              apply indexed.kept path never
              intro rel _ hides
              rw [hidden_iff_hiddenBy.mpr ⟨rel, hides⟩] at hiddenHere
              cases hiddenHere

theorem cleanIndex_indexLayer (marked : WellMarked fs tree) (clean : CleanIndex skip index) :
    CleanIndex skip (indexLayer fs tree skip index) := by
  intro path source found
  rw [lookup_indexLayer marked clean] at found
  by_cases proper : path = [] ∨ pathIsSkipped skip path = true
  · simp [proper] at found
  rw [if_neg proper] at found
  simp only [not_or, Bool.not_eq_true] at proper
  refine ⟨proper.1, proper.2, ?_⟩
  cases plain : hasMarker path with
  | false => rfl
  | true => rw [overlay_of_hasMarker plain] at found; cases found

end

/-- The entries of an extracted layer that has the paths listed by `store`. -/
def storedView (store : Name → Path → Bool) (layersDir : Path) (bare : Name) : View Path :=
  fun path => if store bare path then some (extractedTree layersDir bare ++ path) else none

def indexSpec (store : Name → Path → Bool) (layersDir : Path) (key : CacheKey) : View Path :=
  fun path =>
    if path = [] ∨ pathIsSkipped key.2 path = true then none
    else overlayAll (fun _ => true) (key.1.map (storedView store layersDir)) (fun _ => none) path

/-- Layers are content addressed: a layer that is extracted has the paths that
`store` lists for it, and its markers are files that name ordinary entries. -/
structure Stored (store : Name → Path → Bool) (layersDir : Path) (fs : FS) (dids : List Name) :
    Prop where
  marked : ∀ did ∈ dids, fs.isdir (layerTree layersDir did) = true →
    WellMarked fs (layerTree layersDir did)
  paths : ∀ did ∈ dids, fs.isdir (layerTree layersDir did) = true →
    ∀ path, (fs.get (layerTree layersDir did ++ path)).isSome = store (bareDiffId did) path

def CoherentCache (store : Name → Path → Bool) (layersDir : Path) (cache : IndexCache) : Prop :=
  ∀ key index, cache.lookup key = some index →
    ∀ path, index.lookup path = indexSpec store layersDir key path

section
variable {store : Name → Path → Bool} {layersDir : Path} {fs : FS} {skip : Finset Path}
  {limit : Int} {cache : IndexCache}

variable {dids : List Name}

theorem Stored.sourceView_eq (stored : Stored store layersDir fs dids)
    {did : Name} (member : did ∈ dids) (extracted : fs.isdir (layerTree layersDir did) = true) :
    sourceView fs (layerTree layersDir did) = storedView store layersDir (bareDiffId did) := by
  funext path
  have paths := stored.paths did member extracted path
  simp only [sourceView, storedView, ← paths]
  cases fs.get (layerTree layersDir did ++ path) <;> rfl

private theorem lookup_indexLayers (dids : List Name) :
    ∀ (start index : LayerIndex), Stored store layersDir fs dids → CleanIndex skip start →
      indexLayers fs layersDir skip start dids = .ok index → ∀ path, index.lookup path =
        if path = [] ∨ pathIsSkipped skip path = true then none
        else overlayAll (fun _ => true) ((dids.map bareDiffId).map (storedView store layersDir))
          (fun path => start.lookup path) path := by
  induction dids with
  | nil =>
      intro start index _ clean result path
      obtain rfl := Except.ok.inj result
      by_cases dirty : path = [] ∨ pathIsSkipped skip path = true
      · rw [if_pos dirty]
        exact clean.lookup_eq_none (by cases dirty with
          | inl root => exact .inl root
          | inr skipped => exact .inr (.inl skipped))
      · rw [if_neg dirty]
        rfl
  | cons did dids ih =>
      intro start index stored clean result path
      simp only [indexLayers] at result
      by_cases extracted : fs.isdir (layerTree layersDir did) = true
      · rw [if_pos extracted] at result
        have marked := stored.marked did (by simp) extracted
        have rest : Stored store layersDir fs dids :=
          ⟨fun other member => stored.marked other (by simp [member]),
            fun other member => stored.paths other (by simp [member])⟩
        rw [ih _ _ rest (cleanIndex_indexLayer marked clean) result path]
        by_cases dirty : path = [] ∨ pathIsSkipped skip path = true
        · rw [if_pos dirty, if_pos dirty]
        rw [if_neg dirty, if_neg dirty, List.map_cons, List.map_cons, overlayAll_cons]
        apply overlayAll_congr_base
        rw [lookup_indexLayer marked clean, if_neg dirty, stored.sourceView_eq (by simp) extracted]
      · rw [if_neg extracted] at result
        cases result

theorem indexLayers_eq_spec {index : LayerIndex} (stored : Stored store layersDir fs dids)
    (result : indexLayers fs layersDir skip ∅ dids = .ok index) (path : Path) :
    index.lookup path = indexSpec store layersDir (layerIndexCacheKey dids skip) path := by
  have clean : CleanIndex skip ∅ := by
    intro path source found
    simp at found
  simpa [indexSpec, layerIndexCacheKey] using lookup_indexLayers dids ∅ index stored clean result path

theorem coherentCache_empty : CoherentCache store layersDir ∅ := by
  intro key index found
  simp at found

theorem layerIndexCacheGet_spec {key : CacheKey} (coherent : CoherentCache store layersDir cache) :
    CoherentCache store layersDir (layerIndexCacheGet limit layersDir fs cache key).2 ∧
      ∀ index, (layerIndexCacheGet limit layersDir fs cache key).1 = some index →
        ∀ path, index.lookup path = indexSpec store layersDir key path := by
  unfold layerIndexCacheGet
  split
  · exact ⟨coherent, fun index impossible => by cases impossible⟩
  split
  · exact ⟨coherentCache_empty, fun index impossible => by cases impossible⟩
  cases found : cache.lookup key with
  | none => exact ⟨coherent, fun index impossible => by cases impossible⟩
  | some cached =>
      constructor
      · intro other index present
        rw [Table.lookup_touch found] at present
        exact coherent other index present
      · intro index same
        obtain rfl := Option.some.inj same
        exact coherent key cached found

theorem coherentCache_put {key : CacheKey} {index : LayerIndex}
    (coherent : CoherentCache store layersDir cache)
    (right : ∀ path, index.lookup path = indexSpec store layersDir key path) :
    CoherentCache store layersDir (layerIndexCachePut limit cache key index) := by
  unfold layerIndexCachePut
  split
  · exact coherent
  intro other found present
  cases Table.lookup_putBounded present with
  | inl new =>
      obtain ⟨rfl, rfl⟩ := new
      exact right
  | inr old => exact coherent other found old

theorem buildLayerIndex_spec {skipPaths : List Path}
    (coherent : CoherentCache store layersDir cache) (stored : Stored store layersDir fs dids) :
    CoherentCache store layersDir (buildLayerIndex limit layersDir fs cache dids skipPaths).2 ∧
      ∀ index, (buildLayerIndex limit layersDir fs cache dids skipPaths).1 = .ok index →
        ∀ path, index.lookup path =
          indexSpec store layersDir (layerIndexCacheKey dids skipPaths.toFinset) path := by
  obtain ⟨used, hit⟩ := @layerIndexCacheGet_spec store layersDir fs limit cache
    (layerIndexCacheKey dids skipPaths.toFinset) coherent
  unfold buildLayerIndex
  dsimp only
  cases asked : layerIndexCacheGet limit layersDir fs cache
      (layerIndexCacheKey dids skipPaths.toFinset) with
  | mk answer left =>
      rw [asked] at used hit
      cases answer with
      | some cached =>
          refine ⟨used, fun index same => ?_⟩
          obtain rfl := Except.ok.inj same
          exact hit cached rfl
      | none =>
          cases built : indexLayers fs layersDir skipPaths.toFinset ∅ dids with
          | error error => exact ⟨used, fun index impossible => by cases impossible⟩
          | ok index =>
              have right := indexLayers_eq_spec stored built
              refine ⟨coherentCache_put used right, fun other same => ?_⟩
              obtain rfl := Except.ok.inj same
              exact right

theorem coherentCache_cacheAfter (history : List IndexRequest)
    (stored : ∀ request ∈ history, Stored store layersDir request.fs request.dids) :
    CoherentCache store layersDir (cacheAfter limit layersDir history) := by
  induction history with
  | nil => exact coherentCache_empty
  | cons request earlier ih =>
      have before := ih fun other member => stored other (by simp [member])
      exact (buildLayerIndex_spec before (stored request (by simp))).1

theorem buildLayerIndex_ok {dids : List Name} {skipPaths : List Path}
    (extracted : ∀ did ∈ dids, fs.isdir (layerTree layersDir did) = true) :
    ∃ index, (buildLayerIndex limit layersDir fs cache dids skipPaths).1 = .ok index := by
  have built : ∀ (rest : List Name) (start : LayerIndex),
      (∀ did ∈ rest, fs.isdir (layerTree layersDir did) = true) →
      ∃ index, indexLayers fs layersDir skipPaths.toFinset start rest = .ok index := by
    intro rest
    induction rest with
    | nil => exact fun start _ => ⟨start, rfl⟩
    | cons did rest ih =>
        intro start all
        rw [indexLayers, if_pos (all did (by simp))]
        exact ih _ fun other member => all other (by simp [member])
  obtain ⟨index, result⟩ := built dids ∅ extracted
  unfold buildLayerIndex
  dsimp only
  cases layerIndexCacheGet limit layersDir fs cache (layerIndexCacheKey dids skipPaths.toFinset) with
  | mk answer left =>
      cases answer with
      | some cached => exact ⟨cached, rfl⟩
      | none => exact ⟨index, by rw [result]⟩

theorem indexSpec_obs (stored : Stored store layersDir fs dids)
    (extracted : ∀ did ∈ dids, fs.isdir (layerTree layersDir did) = true) {path : Path}
    (proper : path ≠ []) (kept : pathIsSkipped skip path = false) :
    (indexSpec store layersDir (layerIndexCacheKey dids skip) path).map fs.obs =
      (overlayAll (fun _ => true) (layerViews fs layersDir dids) (fun _ => none) path).map some := by
  have unskipped : ¬ (path = [] ∨ pathIsSkipped skip path = true) := by simp [proper, kept]
  simp only [indexSpec, layerIndexCacheKey, unskipped, ↓reduceIte, layerViews, List.map_map]
  apply overlayAll_map
  · rw [List.forall₂_map_left_iff, List.forall₂_map_right_iff, List.forall₂_same]
    intro did member path
    rw [Function.comp_apply, ← stored.sourceView_eq member (extracted did member)]
    cases found : fs.get (layerTree layersDir did ++ path) with
    | none | some entry => simp [sourceView, view, FS.obs, found]
  · rfl

theorem view_mergeLayersInto {target : Path} {dids : List Name} (stack : LayerStack fs layersDir target dids)
    (targetDir : fs.isDirAt target = true) (empty : fs.names target = [])
    (clear : ClearStack (layerViews fs layersDir dids) (view fs target)) {path : Path} (proper : path ≠ []) :
    view (mergeLayersInto fs layersDir target dids).1 target path =
      overlayAll Obs.isDir (layerViews fs layersDir dids) (fun _ => none) path := by
  have files : MarkerFiles fs target := by
    intro rel name entry _ found
    rw [view_of_empty empty (by simp)] at found
    cases found
  obtain ⟨-, -, result⟩ := view_mergeLayers dids fs (view fs target) stack targetDir files (fun _ _ => rfl) clear
  rw [mergeLayersInto, FS.makedirs_of_isDirAt targetDir, result]
  cases marked : hasMarker path with
  | false => exact overlayAll_congr_base (view_of_empty empty proper)
  | true =>
      symm
      exact overlayAll_of_hasMarker marked rfl

end

def plainStore (bare : Name) (path : Path) : Bool :=
  (plainStack.get (extractedTree (pathOf "store") bare ++ path)).isSome

def staleStack : FS :=
  .populate [.dir (pathOf "target"), .dir (pathOf "store/base/tree/d"),
    .file (pathOf "store/base/tree/d/x") [1], .dir (pathOf "store/top/tree"),
    .file (pathOf "store/top/tree/d") [2]]

end PDocker.Layers
