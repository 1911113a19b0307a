import Syq.Scan.Model

/-!
# The walk reports the pruned tree

What the directories on the stack still owe, together with what was reported, is always the
pruned tree.  So the walk ends with exactly the entries that no pattern turns away, whatever
the sizes of its batches and the readings of its clock, and a restricted receiver's verdict
on a path is the walk's.
-/

namespace Syq.Scan

open Syq.Lib StepResult DescriptorDirectory DescriptorScan List Option

variable {μ : Type} {parent : Bytes} {contents : Contents μ}

/-! ## The entries of a tree -/

/-- The entries below `parent` that `pick` selects, without the contents of directories that
`enter` keeps closed.  What cannot be read has no entries. -/
def collect (enter : Bytes → Bool) (pick : Entry μ → Bool) : Bytes → Contents μ → List (Entry μ)
  | _, .nil => []
  | parent, .leaf _ (.error _) rest => collect enter pick parent rest
  | parent, .leaf name (.ok metadata) rest =>
    [⟨join parent name, false, metadata⟩].filter pick ++ collect enter pick parent rest
  | parent, .branch name directory children rest =>
    [⟨join parent name, true, directory.metadata⟩].filter pick ++
      (if enter (join parent name) && directory.refusal.isNone then
        collect enter pick (join parent name) children
      else []) ++
      collect enter pick parent rest

/-- Every entry below `parent` that can be read. -/
def descendants (parent : Bytes) (contents : Contents μ) : List (Entry μ) :=
  collect (fun _ => true) (fun _ => true) parent contents

/-- Every entry of the tree below its root. -/
def Tree.entries (tree : Tree μ) : List (Entry μ) :=
  if tree.root.refusal.isSome then [] else descendants [] tree.contents

def collectNode (enter : Bytes → Bool) (pick : Entry μ → Bool) (parent : Bytes)
    (node : Node μ) : List (Entry μ) :=
  match node.value with
  | .inl (.error _) => []
  | .inl (.ok metadata) => [⟨join parent node.name, false, metadata⟩].filter pick
  | .inr (directory, children) =>
    [⟨join parent node.name, true, directory.metadata⟩].filter pick ++
      if enter (join parent node.name) && directory.refusal.isNone then
        collect enter pick (join parent node.name) children
      else []

theorem collect_eq_flatMap (enter : Bytes → Bool) (pick : Entry μ → Bool) (parent : Bytes)
    (contents : Contents μ) :
    collect enter pick parent contents =
      contents.nodes.flatMap (collectNode enter pick parent) := by
  induction contents with
  | nil => rfl
  | leaf name value rest ih =>
    cases value <;> simp [collect, Forest.nodes, collectNode, ih]
  | branch name dir children rest _ ih =>
    simp [collect, Forest.nodes, collectNode, ih]

/-- A parent is the root or a path that a name ends. -/
abbrev Parent (parent : Bytes) : Prop :=
  parent = [] ∨ IsPath parent

/-- The entries of a directory lie within its nodes, and a name ends their paths. -/
theorem within_of_mem_descendants (isParent : Parent parent) (valid : contents.Valid IsName) :
    ∀ entry ∈ descendants parent contents,
      (∃ node ∈ contents.nodes, IsName node.name ∧ Within (join parent node.name) entry.path) ∧
        IsPath entry.path := by
  unfold descendants
  induction contents generalizing parent with
  | nil => simp [collect]
  | leaf name value rest ih =>
    rcases valid with ⟨isName, -, restValid⟩
    have later := ih isParent restValid
    intro entry mem
    cases value with
    | error error =>
      rcases later entry mem with ⟨⟨node, nodeMem, found⟩, isPath⟩
      exact ⟨⟨node, mem_cons_of_mem _ nodeMem, found⟩, isPath⟩
    | ok metadata =>
      rcases mem_append.mp mem with here | mem
      · rw [filter_true, mem_singleton] at here
        subst here
        exact ⟨⟨_, mem_cons_self, isName, .refl _⟩, isPath_join isParent isName⟩
      · rcases later entry mem with ⟨⟨node, nodeMem, found⟩, isPath⟩
        exact ⟨⟨node, mem_cons_of_mem _ nodeMem, found⟩, isPath⟩
  | branch name dir children rest childrenHypothesis ih =>
    rcases valid with ⟨isName, -, childrenValid, restValid⟩
    intro entry mem
    rw [collect, mem_append, mem_append] at mem
    rcases mem with (here | inside) | mem
    · rw [filter_true, mem_singleton] at here
      subst here
      exact ⟨⟨_, mem_cons_self, isName, .refl _⟩, isPath_join isParent isName⟩
    · split_ifs at inside
      · have isPath := isPath_join isParent isName
        rcases childrenHypothesis (.inr isPath) childrenValid entry inside with
          ⟨⟨node, -, nodeName, within⟩, ends⟩
        exact ⟨⟨_, mem_cons_self, isName, (within_join isPath nodeName).trans within⟩, ends⟩
      · cases inside
    · rcases ih isParent restValid entry mem with ⟨⟨node, nodeMem, found⟩, isPath⟩
      exact ⟨⟨node, mem_cons_of_mem _ nodeMem, found⟩, isPath⟩

theorem mem_above_of_mem_descendants (isPath : IsPath parent) (valid : contents.Valid IsName)
    {entry : Entry μ} (mem : entry ∈ descendants parent contents) : parent ∈ above entry.path := by
  rcases within_of_mem_descendants (.inr isPath) valid entry mem with
    ⟨⟨node, -, isName, within⟩, -⟩
  have inNode : parent ∈ above (join parent node.name) :=
    mem_above_iff.mpr ⟨node.name, join_of_isPath isPath isName⟩
  rcases within with same | below
  · rwa [same]
  · exact above_trans inNode below

@[simp]
theorem descendants_leaf_ok (parent name : Bytes) (metadata : μ) (rest : Contents μ) :
    descendants parent (.leaf name (.ok metadata) rest) =
      ⟨join parent name, false, metadata⟩ :: descendants parent rest :=
  rfl

@[simp]
theorem descendants_branch (parent name : Bytes) (dir : Directory μ)
    (children rest : Contents μ) :
    descendants parent (.branch name dir children rest) =
      ⟨join parent name, true, dir.metadata⟩ ::
        ((if dir.refusal.isNone then descendants (join parent name) children else []) ++
          descendants parent rest) := by
  simp [descendants, collect]

/-- Every entry of a tree has a path of its own. -/
theorem nodup_descendants (isParent : Parent parent) (valid : contents.Valid IsName) :
    ((descendants parent contents).map Entry.path).Nodup := by
  induction contents generalizing parent with
  | nil => simp [descendants, collect]
  | leaf name value rest ih =>
    rcases valid with ⟨isName, fresh, restValid⟩
    have later := ih isParent restValid
    cases value with
    | error error => exact later
    | ok metadata =>
      rw [descendants_leaf_ok, map_cons, nodup_cons]
      refine ⟨?_, later⟩
      intro mem
      rcases mem_map.mp mem with ⟨entry, entryMem, same⟩
      rcases within_of_mem_descendants isParent restValid entry entryMem with
        ⟨⟨node, nodeMem, nodeName, within⟩, -⟩
      rw [same] at within
      exact fresh node nodeMem (within_join_inj isParent nodeName isName within (.refl _))
  | branch name dir children rest childrenHypothesis ih =>
    rcases valid with ⟨isName, fresh, childrenValid, restValid⟩
    have isPath := isPath_join isParent isName
    have later := ih isParent restValid
    have inner : ∀ entry ∈ (if dir.refusal.isNone then
        descendants (join parent name) children else []),
        join parent name ∈ above entry.path := by
      intro entry mem
      split_ifs at mem
      · exact mem_above_of_mem_descendants isPath childrenValid mem
      · cases mem
    have outside : ∀ entry ∈ descendants parent rest, ¬ Within (join parent name) entry.path := by
      intro entry mem within
      rcases within_of_mem_descendants isParent restValid entry mem with
        ⟨⟨node, nodeMem, nodeName, inNode⟩, -⟩
      exact fresh node nodeMem (within_join_inj isParent nodeName isName inNode within)
    rw [descendants_branch, map_cons, map_append, nodup_cons, nodup_append]
    refine ⟨?_, ?_, later, ?_⟩
    · rw [mem_append, not_or]
      constructor
      · intro mem
        rcases mem_map.mp mem with ⟨entry, entryMem, same⟩
        have strict := inner entry entryMem
        rw [same] at strict
        exact not_mem_above_self _ strict
      · intro mem
        rcases mem_map.mp mem with ⟨entry, entryMem, same⟩
        exact outside entry entryMem (.inl same)
    · split_ifs
      · exact childrenHypothesis (.inr isPath) childrenValid
      · exact nodup_nil
    · intro path inChildren path' inRest same
      subst same
      rcases mem_map.mp inChildren with ⟨entry, entryMem, rfl⟩
      rcases mem_map.mp inRest with ⟨other, otherMem, same⟩
      apply outside other otherMem
      rw [same]
      exact .inr (inner entry entryMem)

/-! ## Pruning -/

/-- The directories that hold a directory's entries are all entered. -/
def Clear (enter : Bytes → Bool) (parent : Bytes) : Prop :=
  parent ≠ [] → enter parent = true ∧ ∀ path ∈ above parent, enter path = true

theorem all_enter_join {enter : Bytes → Bool} {name : Bytes} (isParent : Parent parent)
    (isName : IsName name) (clear : Clear enter parent) :
    (above (join parent name)).all enter = true := by
  rw [List.all_eq_true]
  intro path mem
  rcases (mem_above_join isParent isName).mp mem with ⟨ne, rfl | higher⟩
  · exact (clear ne).1
  · exact (clear ne).2 path higher

/-- A pruned walk meets the entries above which every directory is entered. -/
theorem collect_eq_filter (enter : Bytes → Bool) (pick : Entry μ → Bool) (isParent : Parent parent)
    (valid : contents.Valid IsName) (clear : Clear enter parent) :
    collect enter pick parent contents =
      (descendants parent contents).filter fun entry =>
        pick entry && (above entry.path).all enter := by
  induction contents generalizing parent with
  | nil => rfl
  | leaf name value rest ih =>
    rcases valid with ⟨isName, -, restValid⟩
    have later := ih isParent restValid clear
    cases value with
    | error error => exact later
    | ok metadata =>
      have entered := all_enter_join isParent isName clear
      rw [collect, later]
      cases picked : pick ⟨join parent name, false, metadata⟩ <;>
        simp [picked, entered]
  | branch name dir children rest childrenHypothesis ih =>
    rcases valid with ⟨isName, -, childrenValid, restValid⟩
    have isPath := isPath_join isParent isName
    have entered := all_enter_join isParent isName clear
    have inner : (if enter (join parent name) && dir.refusal.isNone then
        collect enter pick (join parent name) children else []) =
        (if dir.refusal.isNone then descendants (join parent name) children else []).filter
          fun entry => pick entry && (above entry.path).all enter := by
      cases dir.refusal with
      | some error => simp
      | none =>
        cases enters : enter (join parent name) with
        | false =>
          -- Nothing below a closed directory is met: the directory is above all of it.
          symm
          apply filter_eq_nil_iff.mpr
          intro entry mem both
          have strict := mem_above_of_mem_descendants isPath childrenValid mem
          rw [Bool.and_eq_true, List.all_eq_true] at both
          rw [both.2 _ strict] at enters
          cases enters
        | true =>
          apply childrenHypothesis (.inr isPath) childrenValid
          intro _
          exact ⟨enters, all_eq_true.mp entered⟩
    rw [collect, ih isParent restValid clear, inner]
    cases picked : pick ⟨join parent name, true, dir.metadata⟩ <;>
      simp [picked, entered]

/-! ## What the directories on the stack owe -/

namespace DescriptorScan

variable (scan : DescriptorScan)

/-- Whether the walk enters a directory.  The root is never turned away. -/
def enters (path : Bytes) : Bool :=
  path.isEmpty || !scan.ignores path true

/-- Whether the walk reports an entry that it meets. -/
def keeps (entry : Entry μ) : Bool :=
  !scan.ignores entry.path entry.isDirectory

/-- Whether the walk turns an entry away that it meets. -/
def prunes (entry : Entry μ) : Bool :=
  scan.ignores entry.path entry.isDirectory

/-- The entries that a directory on the stack will still lead to. -/
def owed (pick : Entry μ → Bool) (directory : DescriptorDirectory μ) : List (Entry μ) :=
  if directory.refusal.isSome then []
  else directory.remaining.flatMap (collectNode scan.enters pick directory.relative)

end DescriptorScan

/-- The work that a directory on the stack still is. -/
def DescriptorDirectory.weight (directory : DescriptorDirectory μ) : Nat :=
  (directory.remaining.map Forest.Node.weight).sum + 1

def entries (events : ScanChunk μ) : List (Entry μ) :=
  events.filterMap ScanEvent.entry?

@[simp]
theorem entries_append (first second : ScanChunk μ) :
    entries (first ++ second) = entries first ++ entries second :=
  List.filterMap_append

@[simp]
theorem entries_nil : entries ([] : ScanChunk μ) = [] :=
  rfl

@[simp]
theorem entries_cons_entry (entry : Entry μ) (events : ScanChunk μ) :
    entries (.entry entry :: events) = entry :: entries events :=
  rfl

@[simp]
theorem entries_cons_ignored (path : Bytes) (events : ScanChunk μ) :
    entries (.ignored path :: events) = entries events :=
  rfl

@[simp]
theorem entries_cons_warning (warning : ScanWarning) (events : ScanChunk μ) :
    entries (.warning warning :: events) = entries events :=
  rfl

section Fresh

variable (scan : DescriptorScan) (rel : Bytes) (dir : Directory μ)
  (contents : Contents μ) (opened : Bool)

theorem remaining_fresh :
    (⟨rel, dir, contents, opened, none⟩ : DescriptorDirectory μ).remaining.Perm
      contents.nodes :=
  List.mergeSort_perm _ _

/-- A directory that was just found owes all that can be met in it. -/
theorem owed_fresh (pick : Entry μ → Bool) (readable : opened = true → dir.refusal = none) :
    (scan.owed pick ⟨rel, dir, contents, opened, none⟩).Perm
      (if dir.refusal.isNone then collect scan.enters pick rel contents else []) := by
  have same : (⟨rel, dir, contents, opened, none⟩ : DescriptorDirectory μ).refusal =
      dir.refusal := by
    cases opened with
    | false => rfl
    | true => exact (readable rfl).symm
  rw [owed, same, collect_eq_flatMap]
  cases dir.refusal with
  | some error => rfl
  | none => exact (remaining_fresh rel dir contents opened).flatMap_right _

end Fresh

/-- What inspecting a batch of names leaves: the entries it reports and the directories it
finds make up what the names lead to. -/
structure Inspected (scan : DescriptorScan) (parent : Bytes) (batch : List (Node μ))
    (step : DirectoryStep μ) : Prop where
  kept : (entries step.events ++ step.children.flatMap (scan.owed scan.keeps)).Perm
    (batch.flatMap (collectNode scan.enters scan.keeps parent))
  pruned : step.ignored + (step.children.flatMap (scan.owed scan.prunes)).length =
    (batch.flatMap (collectNode scan.enters scan.prunes parent)).length
  weight : (step.children.map DescriptorDirectory.weight).sum + batch.length ≤
    (batch.map Forest.Node.weight).sum
  placed : ∀ entry ∈ entries step.events, ∃ name, IsName name ∧ entry.path = join parent name
  found : ∀ child ∈ step.children,
    (∃ name, IsName name ∧ child.relative = join parent name) ∧
      (∀ node ∈ child.remaining, node.Valid IsName) ∧
      ∃ entry ∈ entries step.events, entry.path = child.relative ∧ entry.isDirectory = true

theorem perm_append_interchange {α : Type} (first second third fourth : List α) :
    ((first ++ second) ++ (third ++ fourth)).Perm ((first ++ third) ++ (second ++ fourth)) := by
  rw [← Multiset.coe_eq_coe]
  simp only [← Multiset.coe_add]
  abel

theorem Inspected.append {scan : DescriptorScan} {batch batch' : List (Node μ)}
    {step step' : DirectoryStep μ} (first : Inspected scan parent batch step)
    (second : Inspected scan parent batch' step') {ignored : Nat}
    (total : ignored = step.ignored + step'.ignored) {remainder : Option (DescriptorDirectory μ)} :
    Inspected scan parent (batch ++ batch')
      ⟨ignored, step.events ++ step'.events, step.children ++ step'.children, remainder⟩ where
  kept := by
    simp only [entries_append, flatMap_append]
    exact (perm_append_interchange _ _ _ _).trans (first.kept.append second.kept)
  pruned := by
    have inFirst := first.pruned
    have inSecond := second.pruned
    simp only [flatMap_append, length_append]
    omega
  weight := by
    have inFirst := first.weight
    have inSecond := second.weight
    simp only [map_append, sum_append, length_append]
    omega
  placed := by
    rw [entries_append, forall_mem_append]
    exact ⟨first.placed, second.placed⟩
  found := by
    rw [forall_mem_append]
    constructor
    · intro child mem
      rcases first.found child mem with ⟨named, valid, entry, entryMem, same⟩
      exact ⟨named, valid, entry, by simp [entryMem], same⟩
    · intro child mem
      rcases second.found child mem with ⟨named, valid, entry, entryMem, same⟩
      exact ⟨named, valid, entry, by simp [entryMem], same⟩

section Single

variable {scan : DescriptorScan} {name : Bytes}

theorem enters_join (isParent : Parent parent) (isName : IsName name) :
    scan.enters (join parent name) = !scan.ignores (join parent name) true := by
  simp [enters, (isPath_join isParent isName).nonempty]

/-- An entry that cannot be inspected is warned about. -/
theorem inspected_error {error : String} :
    Inspected scan parent [(⟨name, .inl (.error error)⟩ : Node μ)]
      ⟨0, [.warning (scan.cannotStat (join parent name) error)], [], none⟩ where
  kept := by simp [collectNode]
  pruned := by simp [collectNode]
  weight := by simp [Forest.Node.weight]
  placed := by simp
  found := by simp

/-- An entry that is turned away is counted, and with it go its contents. -/
theorem inspected_ignored {value : Except String μ ⊕ Directory μ × Contents μ} {isDir : Bool}
    (isParent : Parent parent) (isName : IsName name)
    (shape : (∃ metadata, value = .inl (.ok metadata) ∧ isDir = false) ∨
      ∃ dir contents, value = .inr (dir, contents) ∧ isDir = true)
    (ignored : scan.ignores (join parent name) isDir = true) {events : ScanChunk μ}
    (silent : entries events = []) :
    Inspected scan parent [⟨name, value⟩] ⟨1, events, [], none⟩ where
  kept := by
    rcases shape with ⟨metadata, rfl, rfl⟩ | ⟨dir, contents, rfl, rfl⟩
    · simp [silent, collectNode, keeps, ignored]
    · simp [silent, collectNode, keeps, ignored, enters_join isParent isName]
  pruned := by
    rcases shape with ⟨metadata, rfl, rfl⟩ | ⟨dir, contents, rfl, rfl⟩
    · simp [collectNode, prunes, ignored]
    · simp [collectNode, prunes, ignored, enters_join isParent isName]
  weight := by
    have positive := Forest.Node.weight_pos (⟨name, value⟩ : Node μ)
    simp only [map_nil, length_singleton, map_cons, sum_cons]
    omega
  placed := by simp [silent]
  found := by simp

theorem inspected_leaf {metadata : μ} (isName : IsName name)
    (kept : scan.ignores (join parent name) false = false) :
    Inspected scan parent [⟨name, .inl (.ok metadata)⟩]
      ⟨0, [.entry ⟨join parent name, false, metadata⟩], [], none⟩ where
  kept := by simp [collectNode, DescriptorScan.keeps, kept]
  pruned := by simp [collectNode, DescriptorScan.prunes, kept]
  weight := by simp [Forest.Node.weight]
  placed := by
    simp only [entries_cons_entry, entries_nil, forall_mem_singleton]
    exact ⟨name, isName, rfl⟩
  found := by simp

/-- A directory that is reported and cannot be opened leaves a warning. -/
theorem inspected_refused {dir : Directory μ} (isName : IsName name)
    (kept : scan.ignores (join parent name) true = false) {error : String}
    (refused : dir.refusal = some error) :
    Inspected scan parent [⟨name, .inr (dir, contents)⟩]
      ⟨0, [.entry ⟨join parent name, true, dir.metadata⟩,
        .warning (scan.cannotOpen (join parent name) error)], [], none⟩ where
  kept := by simp [collectNode, DescriptorScan.keeps, kept, refused]
  pruned := by simp [collectNode, DescriptorScan.prunes, kept, refused]
  weight := by simp [Forest.Node.weight]
  placed := by
    simp only [entries_cons_entry, entries_cons_warning, entries_nil, forall_mem_singleton]
    exact ⟨name, isName, rfl⟩
  found := by simp

/-- A directory that is reported goes on the stack, open or not. -/
theorem inspected_directory {dir : Directory μ} {opened : Bool} (isParent : Parent parent)
    (isName : IsName name) (valid : contents.Valid IsName)
    (kept : scan.ignores (join parent name) true = false)
    (readable : opened = true → dir.refusal = none) :
    Inspected scan parent [⟨name, .inr (dir, contents)⟩]
      ⟨0, [.entry ⟨join parent name, true, dir.metadata⟩],
        [⟨join parent name, dir, contents, opened, none⟩], none⟩ where
  kept := by
    have owes := owed_fresh scan (join parent name) dir contents opened
      scan.keeps readable
    simpa [collectNode, keeps, kept, enters_join isParent isName] using owes
  pruned := by
    have owes := (owed_fresh scan (join parent name) dir contents opened
      scan.prunes readable).length_eq
    simpa [collectNode, prunes, kept, enters_join isParent isName] using owes
  weight := by
    have contained := ((remaining_fresh (join parent name) dir contents opened).map
      Forest.Node.weight).sum_eq
    simp only [map_cons, map_nil, sum_cons, weight, contained, Forest.weight_eq_sum,
      Forest.Node.weight, length_singleton]
    omega
  placed := by
    simp only [entries_cons_entry, entries_nil, forall_mem_singleton]
    exact ⟨name, isName, rfl⟩
  found := by
    rintro child mem
    rw [mem_singleton] at mem
    subst mem
    refine ⟨⟨name, isName, rfl⟩, ?_, _, mem_singleton_self _, rfl, rfl⟩
    intro node nodeMem
    exact valid.node node ((remaining_fresh _ _ _ _).mem_iff.mp nodeMem)

end Single

theorem Inspected.turnAway {scan : DescriptorScan} {name : Bytes} {rest : List (Node μ)}
    {value : Except String μ ⊕ Directory μ × Contents μ} {isDir : Bool}
    {step : DirectoryStep μ} (later : Inspected scan parent rest step) (isParent : Parent parent)
    (isName : IsName name)
    (shape : (∃ metadata, value = .inl (.ok metadata) ∧ isDir = false) ∨
      ∃ dir contents, value = .inr (dir, contents) ∧ isDir = true)
    (ignored : scan.ignores (join parent name) isDir = true) :
    Inspected scan parent (⟨name, value⟩ :: rest) (scan.turnAway (join parent name) step) := by
  unfold DescriptorScan.turnAway
  split_ifs
  · exact (inspected_ignored isParent isName shape ignored
      (entries_cons_ignored _ [])).append later (Nat.add_comm _ _)
  · exact (inspected_ignored isParent isName shape ignored
      entries_nil).append later (Nat.add_comm _ _)

/-- What a whole batch leaves, however many directories may stay open. -/
theorem inspect_inspected (scan : DescriptorScan) (isParent : Parent parent) (retain retained : Nat)
    {batch : List (Node μ)} (valid : ∀ node ∈ batch, node.Valid IsName) :
    Inspected scan parent batch (scan.inspect parent retain retained batch) := by
  induction batch generalizing retained with
  | nil => constructor <;> simp [inspect]
  | cons node rest ih =>
    rw [forall_mem_cons] at valid
    rcases valid with ⟨⟨isName, contentsValid⟩, restValid⟩
    have later := fun retained => ih retained restValid
    rcases node with ⟨name, (error | metadata) | ⟨dir, contents⟩⟩
    · exact inspected_error.append (later retained) (Nat.zero_add _).symm
    · rw [inspect]
      cases ignored : scan.ignores (join parent name) false with
      | true =>
        exact (later retained).turnAway isParent isName (.inl ⟨metadata, rfl, rfl⟩) ignored
      | false =>
        exact (inspected_leaf isName ignored).append (later retained) (Nat.zero_add _).symm
    · have inner := contentsValid dir contents rfl
      rw [inspect]
      cases ignored : scan.ignores (join parent name) true with
      | true =>
        exact (later retained).turnAway isParent isName (.inr ⟨_, _, rfl, rfl⟩) ignored
      | false =>
        by_cases available : retained < retain
        · simp only [Bool.false_eq_true, if_false, available, if_true]
          split
          · rename_i readable
            exact (inspected_directory isParent isName inner ignored
              fun _ => readable).append (later (retained + 1)) (Nat.zero_add _).symm
          · rename_i error refused
            exact (inspected_refused isName ignored refused).append (later retained)
              (Nat.zero_add _).symm
        · simp only [if_false, available]
          exact (inspected_directory isParent isName inner ignored
            (by simp)).append (later retained) (Nat.zero_add _).symm

/-! ## One step of the walk -/

/-- The directory is reported, and so are the directories above it. -/
structure Announced (reported : List (Entry μ)) (directory : DescriptorDirectory μ) : Prop where
  isParent : Parent directory.relative
  valid : ∀ node ∈ directory.remaining, node.Valid IsName
  reported : ∀ path, directory.relative ≠ [] →
    path = directory.relative ∨ path ∈ above directory.relative →
      ∃ entry ∈ reported, entry.path = path ∧ entry.isDirectory = true

theorem Announced.mono {reported more : List (Entry μ)} {dir : DescriptorDirectory μ}
    (announced : Announced reported dir) (grown : reported ⊆ more) :
    Announced more dir where
  isParent := announced.isParent
  valid := announced.valid
  reported := by
    intro path ne upper
    rcases announced.reported path ne upper with ⟨entry, mem, found⟩
    exact ⟨entry, grown mem, found⟩

/-- The directories that a step puts on the stack. -/
def StepResult.directories (result : StepResult μ) : List (DescriptorDirectory μ) :=
  remainder result ++ children result

/-- A step reports a part of what its directory owes; the rest is owed by the directories that
it puts on the stack, which are less work. -/
structure Splits (scan : DescriptorScan) (reported : List (Entry μ))
    (directory : DescriptorDirectory μ) (result : StepResult μ) : Prop where
  kept : (entries (events result) ++
      (directories result).flatMap (scan.owed scan.keeps)).Perm
    (scan.owed scan.keeps directory)
  pruned : ignored result +
      ((directories result).flatMap (scan.owed scan.prunes)).length =
    (scan.owed scan.prunes directory).length
  weight : ((directories result).map DescriptorDirectory.weight).sum < directory.weight
  placed : ∀ entry ∈ entries (events result), ∀ path ∈ above entry.path,
    ∃ upper ∈ reported, upper.path = path ∧ upper.isDirectory = true
  announced : ∀ next ∈ directories result,
    Announced (reported ++ entries (events result)) next

/-- The directory again, for the names that a step left over. -/
def DescriptorDirectory.leave (directory : DescriptorDirectory μ) (names : List (Node μ)) :
    Option (DescriptorDirectory μ) :=
  if names.length = 0 then none else some { directory with opened := true, names := some names }

section Leave

variable {dir : DescriptorDirectory μ} {names : List (Node μ)}

theorem mem_leave {next : DescriptorDirectory μ} (mem : next ∈ (dir.leave names).toList) :
    next.relative = dir.relative ∧ next.remaining = names ∧ names ≠ [] := by
  unfold leave at mem
  split_ifs at mem with empty
  · simp at mem
  · rw [toList_some, mem_singleton] at mem
    subst mem
    exact ⟨rfl, rfl, fun none => empty (by simp [none])⟩

theorem owed_leave (scan : DescriptorScan) (pick : Entry μ → Bool) :
    (dir.leave names).toList.flatMap (scan.owed pick) =
      names.flatMap (collectNode scan.enters pick dir.relative) := by
  unfold leave
  split_ifs with empty
  · rw [length_eq_zero_iff] at empty
    simp [empty]
  · simp [owed, refusal, remaining]

theorem weight_leave :
    ((dir.leave names).toList.map DescriptorDirectory.weight).sum =
      if names.length = 0 then 0 else (names.map Forest.Node.weight).sum + 1 := by
  unfold leave
  split_ifs with empty
  · rfl
  · simp [weight, remaining]

end Leave

theorem step_splits (scan : DescriptorScan) (limits : Limits) {reported : List (Entry μ)}
    {directory : DescriptorDirectory μ} (announced : Announced reported directory) (retain : Nat) :
    Splits scan reported directory
      ((scan.step limits directory retain).mapError (scan.cannotOpen directory.relative)) := by
  unfold step
  split
  · rename_i error refused
    have nothing : ∀ pick : Entry μ → Bool, scan.owed pick directory = [] := by
      intro pick
      simp [owed, refused]
    constructor
    · simp [Except.mapError, events, directories, remainder, children, nothing]
    · simp [Except.mapError, ignored, directories, remainder, children, nothing]
    · simp [Except.mapError, directories, remainder, children, weight]
    · simp [Except.mapError, events]
    · simp [Except.mapError, directories, remainder, children]
  · rename_i readable
    set batch := directory.remaining.take limits.firstBatch with batch_eq
    set names := directory.remaining.drop limits.firstBatch with names_eq
    have whole : batch ++ names = directory.remaining := take_append_drop _ _
    have batchValid : ∀ node ∈ batch, node.Valid IsName := fun node mem =>
      announced.valid node (mem_of_mem_take mem)
    have inspected := inspect_inspected scan announced.isParent retain 0 batchValid
    set step := scan.inspect directory.relative retain 0 batch with step_eq
    have owes : ∀ pick : Entry μ → Bool, scan.owed pick directory =
        batch.flatMap (collectNode scan.enters pick directory.relative) ++
          names.flatMap (collectNode scan.enters pick directory.relative) := by
      intro pick
      rw [← flatMap_append, whole]
      simp [owed, readable]
    constructor
    · change (entries step.events ++ ((directory.leave names).toList ++
        step.children).flatMap (scan.owed scan.keeps)).Perm _
      rw [owes, flatMap_append, owed_leave]
      exact (List.Perm.append_left _ perm_append_comm).trans
        (by simpa using inspected.kept.append_right _)
    · change step.ignored + (((directory.leave names).toList ++
        step.children).flatMap (scan.owed scan.prunes)).length = _
      rw [owes, flatMap_append, owed_leave, length_append, length_append, ← inspected.pruned]
      omega
    · change (((directory.leave names).toList ++ step.children).map weight).sum < _
      have less := inspected.weight
      have positive := limits.firstBatch_pos
      have taken : names.length ≠ 0 → 0 < batch.length := by
        intro left
        rw [length_drop] at left
        rw [length_take]
        omega
      rw [map_append, sum_append, weight_leave, weight, ← whole, map_append, sum_append]
      split_ifs with empty
      · omega
      · have := taken empty
        omega
    · intro entry mem path higher
      rcases inspected.placed entry mem with ⟨name, isName, same⟩
      rw [same] at higher
      rcases (mem_above_join announced.isParent isName).mp higher with ⟨nonempty, upper⟩
      exact announced.reported path nonempty upper
    · change ∀ next ∈ (directory.leave names).toList ++ step.children,
        Announced (reported ++ entries step.events) next
      rw [forall_mem_append]
      constructor
      · intro next mem
        rcases mem_leave mem with ⟨same, left, -⟩
        constructor
        · rw [same]
          exact announced.isParent
        · intro node nodeMem
          rw [left] at nodeMem
          exact announced.valid node (mem_of_mem_drop nodeMem)
        · rw [same]
          exact (announced.mono (subset_append_left _ _)).reported
      · intro next mem
        rcases inspected.found next mem with ⟨⟨name, isName, same⟩, valid, entry, found⟩
        constructor
        · rw [same]
          exact .inr (isPath_join announced.isParent isName)
        · exact valid
        · rintro path - (rfl | higher)
          · exact ⟨entry, mem_append_right _ found.1, found.2⟩
          · rw [same] at higher
            rcases (mem_above_join announced.isParent isName).mp higher with ⟨nonempty, upper⟩
            exact (announced.mono (subset_append_left _ _)).reported path nonempty upper

end Syq.Scan
