import Syq.Scan.Pruning

/-!
# Whole walks

The producer keeps what it reported and what its stack owes together equal to the pruned
tree, round by round.  Every round leaves less work, so the producer ends; the consumer hands
on what it is sent.
-/

namespace Syq.Scan

open Syq.Lib StepResult List Option

variable {μ : Type} {entry : Entry μ}

/-! ## Order -/

/-- Every entry comes after the directories above it. -/
def ParentsFirst (reported : List (Entry μ)) : Prop :=
  ∀ before entry after, reported = before ++ entry :: after → ∀ path ∈ above entry.path,
    ∃ upper ∈ before, upper.path = path ∧ upper.isDirectory = true

theorem ParentsFirst.append {reported more : List (Entry μ)} (ordered : ParentsFirst reported)
    (placed : ∀ entry ∈ more, ∀ path ∈ above entry.path,
      ∃ upper ∈ reported, upper.path = path ∧ upper.isDirectory = true) :
    ParentsFirst (reported ++ more) := by
  intro before entry after split path higher
  rcases append_eq_append_iff.mp split with ⟨between, rfl, more_eq⟩ | ⟨between, old, new⟩
  · have mem : entry ∈ more := by simp [more_eq]
    rcases placed entry mem path higher with ⟨upper, upperMem, found⟩
    exact ⟨upper, mem_append_left _ upperMem, found⟩
  · cases between with
    | nil =>
      have mem : entry ∈ more := by
        rw [nil_append] at new
        simp [← new]
      rcases placed entry mem path higher with ⟨upper, upperMem, found⟩
      rw [append_nil] at old
      exact ⟨upper, old ▸ upperMem, found⟩
    | cons first between =>
      rw [cons_append, cons.injEq] at new
      rw [← new.1] at old
      exact ordered before entry between old path higher

/-! ## One round -/

namespace Producer

/-- The entries that the producer has reported. -/
def reported (producer : Producer μ) : List (Entry μ) :=
  entries (producer.sent.flatten ++ producer.chunk)

def weight (producer : Producer μ) : Nat :=
  (producer.directories.map DescriptorDirectory.weight).sum

/-- What a producer that is to report `all` and to count `count` has done and has left. -/
structure Walks (scan : DescriptorScan) (all : List (Entry μ)) (count : Nat)
    (producer : Producer μ) : Prop where
  kept : (producer.reported ++ producer.directories.flatMap (scan.owed scan.keeps)).Perm all
  pruned : producer.ignoredCount +
    (producer.directories.flatMap (scan.owed scan.prunes)).length = count
  ordered : ParentsFirst producer.reported
  announced : ∀ directory ∈ producer.directories, Announced producer.reported directory
  retained : producer.retainedDirectories = openCount producer.directories

/-! ### Sending -/

theorem reported_sendScanChunk (producer : Producer μ) :
    producer.sendScanChunk.reported = producer.reported := by
  unfold sendScanChunk
  split_ifs
  · rfl
  · simp [reported]

theorem sendScanChunk_eq (producer : Producer μ) :
    producer.sendScanChunk.directories = producer.directories ∧
      producer.sendScanChunk.retainedDirectories = producer.retainedDirectories ∧
      producer.sendScanChunk.ignoredCount = producer.ignoredCount ∧
      producer.sendScanChunk.chunk = [] := by
  unfold sendScanChunk
  split_ifs with empty
  · exact ⟨rfl, rfl, rfl, isEmpty_iff.mp empty⟩
  · exact ⟨rfl, rfl, rfl, rfl⟩

theorem pushEvent_spec (limits : Limits) (producer : Producer μ) (event : ScanEvent μ) :
    (pushEvent limits producer event).reported = producer.reported ++ entries [event] ∧
      (pushEvent limits producer event).directories = producer.directories ∧
      (pushEvent limits producer event).retainedDirectories = producer.retainedDirectories ∧
      (pushEvent limits producer event).ignoredCount = producer.ignoredCount := by
  have pushed : ({ producer with chunk := producer.chunk ++ [event] } : Producer μ).reported =
      producer.reported ++ entries [event] := by
    simp only [reported, entries_append, append_assoc]
  unfold pushEvent
  dsimp only
  split_ifs
  · rcases sendScanChunk_eq { producer with chunk := producer.chunk ++ [event] } with
      ⟨dirs, retained, ignored, -⟩
    rw [reported_sendScanChunk]
    exact ⟨pushed, dirs, retained, ignored⟩
  · exact ⟨pushed, rfl, rfl, rfl⟩

theorem foldl_pushEvent_spec (limits : Limits) (producer : Producer μ) (events : ScanChunk μ) :
    (events.foldl (pushEvent limits) producer).reported = producer.reported ++ entries events ∧
      (events.foldl (pushEvent limits) producer).directories = producer.directories ∧
      (events.foldl (pushEvent limits) producer).retainedDirectories =
        producer.retainedDirectories ∧
      (events.foldl (pushEvent limits) producer).ignoredCount = producer.ignoredCount := by
  induction events generalizing producer with
  | nil => simp
  | cons event rest ih =>
    rcases pushEvent_spec limits producer event with ⟨reports, dirs, retained, ignored⟩
    rcases ih (pushEvent limits producer event) with
      ⟨restReports, restDirs, restRetained, restIgnored⟩
    rw [foldl_cons]
    refine ⟨?_, restDirs.trans dirs, restRetained.trans retained, restIgnored.trans ignored⟩
    rw [restReports, reports, append_assoc, ← entries_append, singleton_append]

/-! ### The steps of a round together -/

theorem openCount_append (first second : List (DescriptorDirectory μ)) :
    openCount (first ++ second) = openCount first + openCount second := by
  simp [openCount]

section Round

variable {scan : DescriptorScan} {reported : List (Entry μ)}
  {work : List (DescriptorDirectory μ)} {steps : List (StepResult μ)}

section

variable (splits : List.Forall₂ (Splits scan reported) work steps)

include splits

theorem splits_kept :
    (entries (steps.flatMap StepResult.events) ++
      (steps.flatMap StepResult.directories).flatMap (scan.owed scan.keeps)).Perm
      (work.flatMap (scan.owed scan.keeps)) := by
  induction splits with
  | nil => simp
  | cons first _ ih =>
    simp only [flatMap_cons, entries_append, flatMap_append]
    exact (perm_append_interchange _ _ _ _).trans (first.kept.append ih)

theorem splits_pruned :
    (steps.map StepResult.ignored).sum +
      ((steps.flatMap StepResult.directories).flatMap (scan.owed scan.prunes)).length =
      (work.flatMap (scan.owed scan.prunes)).length := by
  induction splits with
  | nil => rfl
  | cons first _ ih =>
    have here := first.pruned
    simp only [map_cons, sum_cons, flatMap_cons, flatMap_append, length_append]
    omega

theorem splits_weight :
    ((steps.flatMap StepResult.directories).map DescriptorDirectory.weight).sum + work.length ≤
      (work.map DescriptorDirectory.weight).sum := by
  induction splits with
  | nil => rfl
  | cons first _ ih =>
    have here := first.weight
    simp only [flatMap_cons, map_append, sum_append, map_cons, sum_cons, length_cons]
    omega

theorem splits_placed :
    ∀ entry ∈ entries (steps.flatMap StepResult.events), ∀ path ∈ above entry.path,
      ∃ upper ∈ reported, upper.path = path ∧ upper.isDirectory = true := by
  induction splits with
  | nil => simp
  | cons first _ ih =>
    rw [flatMap_cons, entries_append, forall_mem_append]
    exact ⟨first.placed, ih⟩

theorem splits_announced :
    ∀ next ∈ steps.flatMap StepResult.directories,
      Announced (reported ++ entries (steps.flatMap StepResult.events)) next := by
  induction splits with
  | nil => simp
  | cons first _ ih =>
    rw [flatMap_cons, flatMap_cons, entries_append, forall_mem_append]
    constructor
    · intro next mem
      apply (first.announced next mem).mono
      rw [← append_assoc]
      exact subset_append_left _ _
    · intro next mem
      apply (ih next mem).mono
      intro entry entryMem
      simp only [mem_append] at entryMem ⊢
      tauto

end

end Round

section Run

variable {scan : DescriptorScan} {limits : Limits} {all : List (Entry μ)} {count : Nat}
  {producer : Producer μ}

/-- The steps of a round split what the directories that it takes owe. -/
theorem inspectRound_splits (scan : DescriptorScan) (limits : Limits)
    (announced : ∀ directory ∈ producer.directories, Announced producer.reported directory) :
    List.Forall₂ (Splits scan producer.reported)
      (producer.directories.take (min limits.directoryWorkers producer.directories.length))
      (inspectRound scan limits producer).2 := by
  unfold inspectRound
  generalize min limits.directoryWorkers producer.directories.length = taken
  rw [forall₂_map_right_iff]
  have takenAnnounced : ∀ directory ∈ producer.directories.take taken,
      Announced producer.reported directory :=
    fun directory mem => announced directory (mem_of_mem_take mem)
  generalize retain limits (producer.retainedDirectories - openCount _) taken = retains
  generalize producer.directories.take taken = work at takenAnnounced
  generalize 0 = start
  induction work generalizing start with
  | nil => exact .nil
  | cons directory rest ih =>
    rw [forall_mem_cons] at takenAnnounced
    exact .cons (step_splits scan limits takenAnnounced.1 _)
      (ih takenAnnounced.2 (start + 1))

/-- What a round takes off the stack, what it leaves there, and what it counts. -/
structure Round (scan : DescriptorScan) (producer next : Producer μ) (steps : List (StepResult μ))
    (work rest : List (DescriptorDirectory μ)) : Prop where
  parts : producer.directories = work ++ rest
  taken : producer.directories ≠ [] → 0 < work.length
  splits : List.Forall₂ (Splits scan producer.reported) work steps
  reported : next.reported = producer.reported
  left : next.directories = rest
  retained : next.retainedDirectories = producer.retainedDirectories - openCount work
  counted : next.ignoredCount = producer.ignoredCount + (steps.map StepResult.ignored).sum

theorem inspectRound_round (scan : DescriptorScan) (limits : Limits)
    (announced : ∀ dir ∈ producer.directories, Announced producer.reported dir) :
    ∃ work rest, Round scan producer (inspectRound scan limits producer).1
      (inspectRound scan limits producer).2 work rest := by
  refine ⟨_, _, (take_append_drop _ _).symm, ?_, inspectRound_splits scan limits announced,
    rfl, rfl, rfl, rfl⟩
  intro ne
  have workers := limits.directoryWorkers_pos
  have length := length_pos_iff.mpr ne
  rw [length_take]
  omega

theorem report_spec (limits : Limits) (producer : Producer μ) (steps : List (StepResult μ)) :
    (report limits producer steps).reported =
        producer.reported ++ entries (steps.flatMap StepResult.events) ∧
      (report limits producer steps).directories =
        steps.flatMap StepResult.remainder ++ steps.flatMap StepResult.children ++
          producer.directories ∧
      (report limits producer steps).retainedDirectories =
        producer.retainedDirectories +
          openCount (steps.flatMap StepResult.children ++ steps.flatMap StepResult.remainder) ∧
      (report limits producer steps).ignoredCount = producer.ignoredCount := by
  rcases foldl_pushEvent_spec limits producer (steps.flatMap events) with
    ⟨reports, dirs, retained, ignored⟩
  unfold report
  dsimp only
  rw [dirs, retained]
  exact ⟨reports, rfl, rfl, ignored⟩

/-- A round and its report keep the sum of what was reported and what is owed, and leave
less work. -/
theorem Walks.report (walks : Walks scan all count producer) (limits : Limits) :
    Walks scan all count
        (Producer.report limits (inspectRound scan limits producer).1
          (inspectRound scan limits producer).2) ∧
      (producer.directories ≠ [] → (Producer.report limits (inspectRound scan limits producer).1
          (inspectRound scan limits producer).2).weight < producer.weight) := by
  rcases inspectRound_round scan limits walks.announced with ⟨work, rest, round⟩
  generalize (inspectRound scan limits producer).1 = next at *
  generalize (inspectRound scan limits producer).2 = steps at *
  -- The stack holds the remainders before the children; for the sums the order is no matter.
  have found : (steps.flatMap remainder ++ steps.flatMap children).Perm
      (steps.flatMap StepResult.directories) :=
    flatMap_append_perm steps _ _
  rcases report_spec limits next steps with ⟨reports, stack, retained, counted⟩
  rw [round.reported] at reports
  rw [round.left] at stack
  constructor
  · constructor
    · have split := ((found.flatMap_right (scan.owed scan.keeps)).append_left _).trans
        (splits_kept round.splits)
      have total := walks.kept
      rw [round.parts, flatMap_append] at total
      rw [reports, stack, flatMap_append, append_assoc, ← append_assoc (entries _)]
      exact ((split.append_right _).append_left _).trans total
    · have split := splits_pruned round.splits
      have same := (found.flatMap_right (scan.owed scan.prunes)).length_eq
      have total := walks.pruned
      rw [round.parts, flatMap_append, length_append] at total
      rw [counted, round.counted, stack, flatMap_append, length_append]
      omega
    · rw [reports]
      exact walks.ordered.append (splits_placed round.splits)
    · rw [reports, stack, forall_mem_append]
      constructor
      · intro dir mem
        exact splits_announced round.splits dir (found.mem_iff.mp mem)
      · intro dir mem
        have old : dir ∈ producer.directories := by
          rw [round.parts]
          exact mem_append_right _ mem
        exact (walks.announced dir old).mono (subset_append_left _ _)
    · have before := walks.retained
      rw [round.parts, openCount_append] at before
      rw [retained, round.retained, stack, openCount_append, openCount_append, openCount_append]
      omega
  · intro ne
    have less := splits_weight round.splits
    have positive := round.taken ne
    have same := (found.map DescriptorDirectory.weight).sum_eq
    unfold weight
    rw [stack, round.parts, map_append, sum_append, same, map_append, sum_append]
    omega

/-- A round that has nothing to report changes nothing when it is reported. -/
theorem report_unproductive (limits : Limits) (producer : Producer μ)
    {steps : List (StepResult μ)} (idle : steps.any StepResult.productive = false) :
    report limits producer steps = producer := by
  have nothing : ∀ step ∈ steps, events step = [] ∧ children step = [] ∧
      remainder step = [] := by
    intro step mem
    have unproductive := any_eq_false.mp idle step mem
    cases step with
    | error warning => simp [productive] at unproductive
    | ok step =>
      simpa [productive, events, children, remainder, and_assoc] using unproductive
  have noEvents : steps.flatMap events = [] :=
    flatMap_eq_nil_iff.mpr fun step mem => (nothing step mem).1
  have noChildren : steps.flatMap children = [] :=
    flatMap_eq_nil_iff.mpr fun step mem => (nothing step mem).2.1
  have noRemainders : steps.flatMap remainder = [] :=
    flatMap_eq_nil_iff.mpr fun step mem => (nothing step mem).2.2
  simp [report, noEvents, noChildren, noRemainders, openCount]

/-- A dispatch keeps the sum too, however many idle rounds it takes. -/
theorem Walks.stepRounds (walks : Walks scan all count producer) (late : Nat → Bool)
    (rounds : Nat) (ne : producer.directories ≠ []) :
    Walks scan all count
        (Producer.report limits (stepRounds scan limits late rounds producer).1
          (stepRounds scan limits late rounds producer).2) ∧
      (Producer.report limits (stepRounds scan limits late rounds producer).1
          (stepRounds scan limits late rounds producer).2).weight < producer.weight := by
  induction rounds generalizing producer with
  | zero =>
    rcases walks.report limits with ⟨next, less⟩
    exact ⟨next, less ne⟩
  | succ left ih =>
    rcases walks.report limits with ⟨next, less⟩
    unfold Producer.stepRounds
    dsimp only
    split_ifs with stops
    · exact ⟨next, less ne⟩
    · simp only [Bool.or_eq_true, not_or, Bool.not_eq_true] at stops
      rcases stops with ⟨⟨⟨idle, more⟩, -⟩, -⟩
      rw [report_unproductive limits _ idle] at next less
      have later := ih next (by simpa using more)
      exact ⟨later.1, later.2.trans (less ne)⟩

/-- The producer ends, with nothing left on its stack and nothing left in its chunk. -/
theorem Walks.run (walks : Walks scan all count producer) (limits : Limits)
    (late : Nat → Bool) {fuel : Nat}
    (enough : producer.weight < fuel) :
    ∃ last, Producer.run scan limits late fuel producer = some last ∧
      Walks scan all count last ∧ last.directories = [] ∧ last.chunk = [] := by
  induction fuel generalizing producer with
  | zero => omega
  | succ fuel ih =>
    unfold Producer.run
    by_cases done : producer.directories = []
    · rcases sendScanChunk_eq producer with ⟨dirs, retained, ignored, chunk⟩
      have reports := reported_sendScanChunk producer
      refine ⟨producer.sendScanChunk, by simp [done], ?_, dirs.trans done, chunk⟩
      constructor
      · rw [reports, dirs]
        exact walks.kept
      · rw [ignored, dirs]
        exact walks.pruned
      · rw [reports]
        exact walks.ordered
      · rw [reports, dirs]
        exact walks.announced
      · rw [retained, dirs]
        exact walks.retained
    · rcases walks.stepRounds late limits.rounds done with ⟨next, less⟩
      rcases ih next (by omega) with ⟨last, ran, found⟩
      exact ⟨last, by simpa [done] using ran, found⟩

end Run

end Producer

/-! ## The consumer -/

namespace Receiver

/-- The entries that the consumer was given. -/
def taken (receiver : Receiver μ) : List (Entry μ) :=
  receiver.sunk.flatten ++ receiver.batch

variable (receiver : Receiver μ)

include receiver

theorem taken_sink : receiver.sink.taken = receiver.taken := by
  simp [sink, taken]

theorem taken_settle (limits : Limits) (timeout : Bool) :
    (receiver.settle limits timeout).taken = receiver.taken := by
  unfold settle
  split_ifs
  · exact taken_sink receiver
  · exact taken_sink receiver
  · rfl

theorem taken_event (limits : Limits) (found : ScanEvent μ) :
    (receiver.event limits found).taken = receiver.taken ++ entries [found] := by
  cases found with
  | entry entry => simp [event, taken]
  | ignored path =>
    unfold event
    dsimp only
    split_ifs <;> simp [taken]
  | warning warning => simp [event, taken]

theorem taken_foldl_event (limits : Limits) (chunk : ScanChunk μ) :
    (chunk.foldl (event limits) receiver).taken = receiver.taken ++ entries chunk := by
  induction chunk generalizing receiver with
  | nil => simp
  | cons found rest ih =>
    rw [foldl_cons, ih, taken_event, append_assoc, ← entries_append, singleton_append]

theorem taken_receiveScan (limits : Limits) (timeout : Nat → Bool) (chunks : List (ScanChunk μ)) :
    (receiveScan limits timeout chunks receiver).taken =
      receiver.taken ++ entries chunks.flatten := by
  induction chunks generalizing receiver with
  | nil => simp [receiveScan, taken_settle]
  | cons chunk rest ih =>
    rw [receiveScan, ih, taken_foldl_event, taken_settle, flatten_cons,
      entries_append, append_assoc]

theorem flatten_sunk_finish :
    receiver.finish.sunk.flatten = receiver.taken := by
  unfold finish taken
  dsimp only
  split_ifs with empty
  · rw [isEmpty_iff.mp empty, append_nil]
  · simp

end Receiver

/-! ## The verdict on a path -/

/-- The verdict on a path under the patterns of a walk, if it has any. -/
def DescriptorScan.pathIsIgnored (scan : DescriptorScan) (path : Bytes) (isDir : Bool) : Bool :=
  scan.ignore.any fun matched => Scan.pathIsIgnored matched path isDir

variable (scan : DescriptorScan)

include scan

theorem pathIsIgnored_eq {path : Bytes} (ne : path ≠ []) (isDir : Bool) :
    scan.pathIsIgnored path isDir =
      (scan.ignores path isDir || !(above path).all scan.enters) := by
  unfold DescriptorScan.pathIsIgnored DescriptorScan.ignores DescriptorScan.enters
    DescriptorScan.ignores
  cases scan.ignore with
  | none => simp
  | some matched =>
    simp only [Scan.pathIsIgnored, isEmpty_eq_false_iff.mpr ne, any_some,
      not_all_eq_any_not, Bool.not_or, Bool.not_not, Bool.not_false, Bool.true_and]

/-- The directories above a path are all entered when the verdict lets all of them pass. -/
theorem all_enters_eq (path : Bytes) :
    (above path).all scan.enters =
      (above path).all fun upper => !scan.pathIsIgnored upper true := by
  rw [Bool.eq_iff_iff, List.all_eq_true, List.all_eq_true]
  constructor
  · intro entered upper higher
    by_cases ne : upper = []
    · subst ne
      cases ignore : scan.ignore <;>
        simp [DescriptorScan.pathIsIgnored, ignore, Scan.pathIsIgnored]
    · have here := entered upper higher
      have before : (above upper).all scan.enters = true :=
        List.all_eq_true.mpr fun higher' mem => entered higher' (above_trans mem higher)
      rw [DescriptorScan.enters] at here
      rw [List.isEmpty_eq_false_iff.mpr ne] at here
      rw [pathIsIgnored_eq scan ne, before]
      simpa using here
  · intro passed upper higher
    by_cases ne : upper = []
    · simp [DescriptorScan.enters, ne]
    · have here := passed upper higher
      rw [pathIsIgnored_eq scan ne, Bool.not_or, Bool.and_eq_true] at here
      rw [DescriptorScan.enters, here.1, Bool.or_true]

/-- Below one root a restricted receiver's verdict is the verdict on the rest of the path. -/
theorem filterScope_pathIsIgnored (root : Bytes) {relative : Bytes}
    (nonempty : relative ≠ []) (isDir : Bool) :
    FilterScope.pathIsIgnored ⟨scan.ignore, [root]⟩ (root ++ slash :: relative) isDir =
      scan.pathIsIgnored relative isDir := by
  unfold FilterScope.pathIsIgnored DescriptorScan.pathIsIgnored
  cases scan.ignore with
  | none => rfl
  | some matched =>
    have below : root.isPrefixOf (root ++ slash :: relative) = true := by
      rw [List.isPrefixOf_iff_prefix]
      exact prefix_append _ _
    have next : (root ++ slash :: relative)[root.length]? = some slash := by simp
    have rest : (root ++ slash :: relative).drop (root.length + 1) = relative := by
      simp [drop_append]
    have other : root ++ slash :: relative ≠ root := by simp
    simp only [FilterScope.verdict, Scan.pathIsIgnored, below, next, rest, other, any_some,
      isEmpty_eq_false_iff.mpr nonempty, Bool.not_true, Bool.not_false, Bool.true_and,
      Bool.false_or, bne_self_eq_false, Bool.false_eq_true]
    cases matched relative isDir <;>
      cases (above relative).any fun ancestor => !ancestor.isEmpty && matched ancestor true <;>
      rfl

omit scan

/-! ## The whole walk -/

/-- What a walk starts from. -/
def start (tree : Tree μ) : Producer μ where
  directories := [⟨[], tree.root, tree.contents, false, none⟩]
  retainedDirectories := 0
  ignoredCount := 0
  chunk := []
  sent := []
  round := 0

/-- The entries of the tree whose own verdict is `pick`, none of whose directories is turned
away. -/
theorem owed_start (scan : DescriptorScan) (tree : Tree μ) (pick : Entry μ → Bool) :
    ((start tree).directories.flatMap (scan.owed pick)).Perm
      (tree.entries.filter fun entry => pick entry && (above entry.path).all scan.enters) := by
  have owes := owed_fresh scan [] tree.root tree.contents false pick (by simp)
  rw [collect_eq_filter scan.enters pick (.inl rfl) tree.valid (fun ne => absurd rfl ne)]
    at owes
  rw [start, Tree.entries]
  cases refusal : tree.root.refusal <;> simpa [refusal] using owes

theorem isPath_of_mem_entries {tree : Tree μ} (mem : entry ∈ tree.entries) :
    IsPath entry.path := by
  unfold Tree.entries at mem
  split_ifs at mem
  · cases mem
  · exact (within_of_mem_descendants (.inl rfl) tree.valid entry mem).2

theorem nodup_entries (tree : Tree μ) : (tree.entries.map Entry.path).Nodup := by
  unfold Tree.entries
  split_ifs
  · exact nodup_nil
  · exact nodup_descendants (.inl rfl) tree.valid

/-- The entries that the verdict lets pass. -/
def DescriptorScan.visible (scan : DescriptorScan) (tree : Tree μ) : List (Entry μ) :=
  tree.entries.filter fun entry => !scan.pathIsIgnored entry.path entry.isDirectory

/-- The entries that the verdict turns away although it turns no directory above them away. -/
def DescriptorScan.turnedAway (scan : DescriptorScan) (tree : Tree μ) : List (Entry μ) :=
  tree.entries.filter fun entry =>
    scan.pathIsIgnored entry.path entry.isDirectory &&
      (above entry.path).all fun upper => !scan.pathIsIgnored upper true

theorem start_walks (scan : DescriptorScan) (tree : Tree μ) :
    Producer.Walks scan (scan.visible tree) (scan.turnedAway tree).length (start tree) where
  kept := by
    apply (owed_start scan tree scan.keeps).trans
    refine List.Perm.of_eq (filter_congr fun entry mem => ?_)
    rw [pathIsIgnored_eq scan (isPath_of_mem_entries mem).nonempty, DescriptorScan.keeps,
      Bool.not_or, Bool.not_not]
  pruned := by
    change 0 + _ = _
    rw [Nat.zero_add, (owed_start scan tree scan.prunes).length_eq]
    refine congrArg length (filter_congr fun entry mem => ?_)
    rw [← all_enters_eq, pathIsIgnored_eq scan (isPath_of_mem_entries mem).nonempty,
      DescriptorScan.prunes]
    cases (above entry.path).all scan.enters <;> simp
  ordered := by
    intro before entry after split
    cases before <;> cases split
  announced := by
    rw [start, forall_mem_singleton]
    constructor
    · exact .inl rfl
    · intro node mem
      exact tree.valid.node node ((remaining_fresh _ _ _ _).mem_iff.mp mem)
    · intro path ne
      exact absurd rfl ne
  retained := rfl

/-- A walk that ignores nothing meets every directory above an entry before the entry. -/
theorem upper_of_mem_entries {tree : Tree μ} (mem : entry ∈ tree.entries) :
    ∀ path ∈ above entry.path,
      ∃ upper ∈ tree.entries, upper.path = path ∧ upper.isDirectory = true := by
  let scan : DescriptorScan := ⟨none, false, fun _ => ""⟩
  have all : scan.visible tree = tree.entries := by
    simp [DescriptorScan.visible, DescriptorScan.pathIsIgnored, scan]
  rcases (start_walks scan tree).run limits (fun _ => false) (Nat.lt_succ_self _) with
    ⟨last, -, walks, done, -⟩
  have kept := walks.kept
  rw [done, flatMap_nil, append_nil, all] at kept
  rcases append_of_mem (kept.mem_iff.mpr mem) with ⟨before, after, split⟩
  intro path higher
  rcases walks.ordered before entry after split path higher with ⟨upper, upperMem, found⟩
  exact ⟨upper, kept.mem_iff.mp (split ▸ mem_append_left _ upperMem), found⟩

/-- What a walk hands on once its producer has ended. -/
theorem scanDescriptor_of_run {scan : DescriptorScan} {limits : Limits} {late : Nat → Bool}
    (timeout : Nat → Bool) {tree : Tree μ} {fuel : Nat} {last : Producer μ}
    (ran : Producer.run scan limits late fuel (start tree) = some last) :
    ∃ scanned, scanDescriptor scan limits late timeout tree fuel = some scanned ∧
      scanned.batches.flatten =
        ⟨[], true, tree.root.metadata⟩ :: entries last.sent.flatten ∧
      scanned.ignoredCount = last.ignoredCount := by
  change ∃ scanned, (Producer.run scan limits late fuel (start tree)).bind _ = some scanned ∧ _
  rw [ran]
  refine ⟨_, rfl, ?_, rfl⟩
  rw [Receiver.flatten_sunk_finish, Receiver.taken_receiveScan]
  rfl

/-- Whatever the sizes of the batches, the clock and the waits of the consumer, a walk ends.
After the root it hands on exactly the entries that the verdict on their paths lets pass, each
once and after the directories above it; and it counts the entries that are turned away below
directories that are not.  Below one root, a restricted receiver's verdict is the same. -/
theorem scan_hands_on_the_pruned_tree (scan : DescriptorScan) (limits : Limits)
    (late timeout : Nat → Bool) (tree : Tree μ) :
    (∃ enough, ∀ fuel ≥ enough, ∃ scanned emitted,
      scanDescriptor scan limits late timeout tree fuel = some scanned ∧
      scanned.batches.flatten = ⟨[], true, tree.root.metadata⟩ :: emitted ∧
      emitted.Perm (scan.visible tree) ∧
      (emitted.map Entry.path).Nodup ∧
      ParentsFirst emitted ∧
      scanned.ignoredCount = (scan.turnedAway tree).length) ∧
    ∀ root relative isDir, relative ≠ [] →
      FilterScope.pathIsIgnored ⟨scan.ignore, [root]⟩ (root ++ slash :: relative) isDir =
        scan.pathIsIgnored relative isDir := by
  constructor
  · refine ⟨(start tree).weight + 1, fun fuel enough => ?_⟩
    rcases (start_walks scan tree).run limits late enough with ⟨last, ran, walks, done, sent⟩
    rcases scanDescriptor_of_run timeout ran with ⟨scanned, scans, batches, counted⟩
    have kept := walks.kept
    have pruned := walks.pruned
    have ordered := walks.ordered
    rw [done, flatMap_nil] at kept pruned
    rw [Producer.reported, sent, append_nil] at kept ordered
    rw [append_nil] at kept
    refine ⟨scanned, entries last.sent.flatten, scans, batches, kept, ?_, ordered,
      counted.trans pruned⟩
    have distinct := (nodup_entries tree).sublist
      ((filter_sublist (l := tree.entries) (p := fun entry =>
        !scan.pathIsIgnored entry.path entry.isDirectory)).map Entry.path)
    exact (kept.map Entry.path).nodup_iff.mpr distinct
  · intro root relative isDir nonempty
    exact filterScope_pathIsIgnored scan root nonempty isDir

end Syq.Scan
