import Syq.Lib.Collections
import Syq.Lib.Span

/-!
# Shared batches of small files

The owner of a batch of small files cuts it into groups of consecutive files,
keeps the first group and shares the rest.  It claims from the front of the
shared groups while other workers steal whole groups from the back.  A position
below is the place of a file in the batch, and groups, claims and stolen groups
are spans of positions.
-/

namespace Syq.Sched

open Syq.Lib Span List Option

structure FastGroup where
  files : Span
  bytes : Nat
  deriving DecidableEq

/-- The state behind a `FastBatchHandle`.  A file is its size and job index. -/
structure FastBatchState where
  files : List (Nat × Nat)
  groups : List FastGroup
  owned : List Bool
  deriving DecidableEq, Inhabited

/-- `files[range]`. -/
def slice (files : List (Nat × Nat)) (span : Span) : List (Nat × Nat) :=
  (files.drop span.off).take span.len

/-- The bytes of the files at the positions of a span. -/
def sizeSum (files : List (Nat × Nat)) (span : Span) : Nat :=
  ((slice files span).map Prod.fst).sum

namespace FastBatchState

/-- The loop of `claim`, with the number of files it may still look at.  One
whole file must make progress even if it exceeds the time estimate. -/
def claimLoop (files : List (Nat × Nat)) (maxFiles maxBytes start : Nat) :
    Nat → Nat → Nat → Option (Nat × Nat)
  | 0, stop, bytes => some (stop, bytes)
  | room + 1, stop, bytes => do
      let file ← files[stop]?
      if start < stop ∧ (maxFiles ≤ stop - start ∨ maxBytes < saturatingAdd bytes file.1) then
        return (stop, bytes)
      claimLoop files maxFiles maxBytes start room (stop + 1) (bytes + file.1)

/-- Claim files from the front group. -/
def claim (batch : FastBatchState) (maxFiles maxBytes : Nat) :
    Option (Option Span × FastBatchState) :=
  match batch.groups with
  | [] => some (none, batch)
  | group :: rest => do
      let start := group.files.off
      let (stop, bytes) ←
        claimLoop batch.files maxFiles maxBytes start group.files.len start 0
      let left ← checkedSub group.bytes bytes
      let unread : FastGroup := ⟨.between stop group.files.stop, left⟩
      return (some (.between start stop),
        { batch with groups := if unread.files.len = 0 then rest else unread :: rest })

/-- A shared group with the total of its file sizes. -/
def groupOf (files : List (Nat × Nat)) (span : Span) : Option FastGroup :=
  if span.stop ≤ files.length then some ⟨span, sizeSum files span⟩ else none

/-- The owner's first group and the state it shares. -/
def share (files : List (Nat × Nat)) : List Span → Option (Span × FastBatchState)
  | [] => none
  | first :: rest => do
      let groups ← rest.mapM (groupOf files)
      return (first, { files, groups, owned := List.replicate files.length true })

/-- `owned[range].fill(false)`. -/
def disown (owned : List Bool) (span : Span) : List Bool :=
  owned.take span.off ++ List.replicate span.len false ++ owned.drop span.stop

/-- Take the last shared group away from the owner, with its files. -/
def popBack (batch : FastBatchState) :
    Option (Option (Span × List (Nat × Nat)) × FastBatchState) :=
  match batch.groups.getLast? with
  | none => some (none, batch)
  | some group =>
    if group.files.stop ≤ batch.owned.length ∧ group.files.stop ≤ batch.files.length then
      some (some (group.files, slice batch.files group.files), { batch with
          groups := batch.groups.dropLast
          owned := disown batch.owned group.files })
    else none

/-- The job indices the owner keeps: those whose `owned` flag is still set. -/
def ownedFiles (files : List (Nat × Nat)) (owned : List Bool) : List Nat :=
  ((files.zip owned).filter Prod.snd).map fun file => file.1.2

end FastBatchState

/-! ## How the owner cuts a batch into groups -/

/-- The limits `fast_batch` puts on a group: bytes, request path bytes and
files.  `firstBytes` and `firstFiles` also bound the first group. -/
structure GroupLimits where
  bytes : Nat
  pathBytes : Nat
  files : Nat
  firstBytes : Nat
  firstFiles : Nat

/-- The grouping loop of `fast_batch`, over the files' byte counts and source
request sizes.  The loop looks at file `i`, the present group starts at `start`. -/
def groupFiles (limits : GroupLimits) :
    List (Nat × Nat) → (i start bytes pathBytes : Nat) → List Span
  | [], i, start, _, _ => if start < i then [.between start i] else []
  | (fileBytes, sourceBytes) :: rest, i, start, bytes, pathBytes =>
    let maxBytes := if start = 0 then min limits.bytes limits.firstBytes else limits.bytes
    let maxFiles := if start = 0 then min limits.files limits.firstFiles else limits.files
    if start < i ∧ (maxBytes < saturatingAdd bytes fileBytes ∨
        limits.pathBytes < saturatingAdd pathBytes sourceBytes ∨ maxFiles ≤ i - start) then
      .between start i :: groupFiles limits rest (i + 1) i fileBytes sourceBytes
    else
      groupFiles limits rest (i + 1) start (bytes + fileBytes)
        (saturatingAdd pathBytes sourceBytes)

/-- The groups follow each other from the present one's start to the last file. -/
theorem tiles_groupFiles (limits : GroupLimits) (files : List (Nat × Nat)) {i start : Nat}
    (bytes pathBytes : Nat) (reached : start ≤ i) :
    Tiles start (groupFiles limits files i start bytes pathBytes) (i + files.length) := by
  induction files generalizing i start bytes pathBytes with
  | nil =>
    unfold groupFiles
    split_ifs with begun
    · exact ⟨rfl, Nat.sub_pos_of_lt begun, between_stop reached⟩
    · exact Nat.le_antisymm reached (Nat.not_lt.mp begun)
  | cons file rest ih =>
    rw [length_cons, ← Nat.succ_add_eq_add_succ]
    unfold groupFiles
    extract_lets maxBytes maxFiles
    split_ifs with closes
    · refine ⟨rfl, Nat.sub_pos_of_lt closes.1, ?_⟩
      rw [between_stop reached]
      exact ih _ _ (Nat.le_succ i)
    · exact ih _ _ (Nat.le_succ_of_le reached)

/-! ## Slices -/

theorem slice_between_append (files : List (Nat × Nat)) {first middle last : Nat}
    (lower : first ≤ middle) (upper : middle ≤ last) :
    slice files (.between first middle) ++ slice files (.between middle last) =
      slice files (.between first last) := by
  have whole : last - first = (middle - first) + (last - middle) := by omega
  have start : files.drop middle = (files.drop first).drop (middle - first) := by
    rw [drop_drop]
    congr 1
    omega
  simp only [slice, between, start, whole, take_add]

theorem sizeSum_between_add (files : List (Nat × Nat)) {first middle last : Nat}
    (lower : first ≤ middle) (upper : middle ≤ last) :
    sizeSum files (.between first middle) + sizeSum files (.between middle last) =
      sizeSum files (.between first last) := by
  simp only [sizeSum, ← slice_between_append files lower upper, map_append, sum_append]

theorem sizeSum_between_succ {files : List (Nat × Nat)} {start stop : Nat} {file : Nat × Nat}
    (ordered : start ≤ stop) (found : files[stop]? = some file) :
    sizeSum files (.between start (stop + 1)) = sizeSum files (.between start stop) + file.1 := by
  rw [← sizeSum_between_add files ordered (Nat.le_succ stop)]
  simp [sizeSum, slice, between, take_one, found]

namespace FastBatchState

variable {files : List (Nat × Nat)} {owned : List Bool} {span : Span}

/-! ## What a claim takes -/

/-- The claim loop stops inside the group, with the exact size of what it took. -/
theorem claimLoop_spec (maxFiles maxBytes start : Nat) {room stop last : Nat}
    (ordered : start ≤ stop) (reach : stop + room = last) (inside : last ≤ files.length) :
    ∃ taken, claimLoop files maxFiles maxBytes start room stop
        (sizeSum files (.between start stop)) =
          some (taken, sizeSum files (.between start taken)) ∧
      stop ≤ taken ∧ taken ≤ last ∧ (stop = start → 0 < room → start < taken) := by
  induction room generalizing stop with
  | zero => exact ⟨stop, rfl, Nat.le_refl _, by omega, by omega⟩
  | succ room ih =>
    have stopInside : stop < files.length := by omega
    have found := getElem?_eq_getElem stopInside
    by_cases full : start < stop ∧ (maxFiles ≤ stop - start ∨
        maxBytes < saturatingAdd (sizeSum files (.between start stop)) files[stop].1)
    · exact ⟨stop, by simp [claimLoop, found, full], Nat.le_refl _, by omega, by omega⟩
    · rcases @ih (stop + 1) (by omega) (by omega) with
        ⟨taken, loopEq, lower, upper, -⟩
      refine ⟨taken, ?_, by omega, upper, by omega⟩
      rw [sizeSum_between_succ ordered found] at loopEq
      simp only [claimLoop, found, full, bind_eq_bind, bind_some]
      exact loopEq

/-! ## The invariant of a shared batch -/

/-- The owner's claims, the stolen groups and the groups still shared hold every
position of the batch exactly once; shared groups carry their exact sizes, and a
file is owned unless its group was stolen. -/
structure Shared (batch : FastBatchState) (claims stolen : List Span) : Prop where
  partition : ∀ position, cover claims position + cover stolen position +
    cover (batch.groups.map FastGroup.files) position =
      (Span.between 0 batch.files.length).count position
  claimed : ∀ span ∈ claims, 0 < span.len
  taken : ∀ span ∈ stolen, 0 < span.len
  unread : ∀ group ∈ batch.groups, 0 < group.files.len
  bytes : ∀ group ∈ batch.groups, group.bytes = sizeSum batch.files group.files
  ownedLength : batch.owned.length = batch.files.length
  owned : ∀ position < batch.files.length,
    batch.owned[position]? = some (decide (cover stolen position = 0))

theorem mapM_groupOf {spans : List Span} (inside : ∀ span ∈ spans, span.stop ≤ files.length) :
    spans.mapM (groupOf files) = some (spans.map fun span => ⟨span, sizeSum files span⟩) := by
  induction spans with
  | nil => rfl
  | cons span rest ih =>
    have restEq := ih fun other otherMem =>
      inside other (mem_cons_of_mem span otherMem)
    simp [mapM_cons, groupOf, inside span mem_cons_self, restEq]

namespace Shared

variable {batch : FastBatchState} {claims stolen : List Span}

/-- A shared group lies inside the batch. -/
theorem group_inside (shared : batch.Shared claims stolen) {group : FastGroup}
    (mem : group ∈ batch.groups) : group.files.stop ≤ batch.files.length := by
  have ne := shared.unread group mem
  have covered : group.files.count (group.files.stop - 1) = 1 :=
    count_of_mem (by simp only [stop]; omega) (by simp only [stop]; omega)
  have counted := count_le_cover_of_mem (mem_map_of_mem (f := FastGroup.files) mem)
    (group.files.stop - 1)
  have total := shared.partition (group.files.stop - 1)
  have within : (between 0 batch.files.length).count (group.files.stop - 1) ≠ 0 := by omega
  have below := (count_ne_zero_iff.mp within).2
  rw [between_stop (Nat.zero_le _)] at below
  omega

/-- Sharing the groups an owner built: the first is its first claim. -/
theorem of_share {groups : List Span} (ne : groups ≠ []) (tiles : Tiles 0 groups files.length) :
    ∃ first batch, share files groups = some (first, batch) ∧
      batch.files = files ∧ batch.owned = List.replicate files.length true ∧
      batch.Shared [first] [] := by
  cases groups with
  | nil => exact absurd rfl ne
  | cons first rest =>
    have mapped := mapM_groupOf fun span spanMem =>
      tiles.stop_le span (mem_cons_of_mem first spanMem)
    have groupsEq : (rest.map fun span => (⟨span, sizeSum files span⟩ : FastGroup)).map
        FastGroup.files = rest := by
      rw [List.map_map]
      exact map_id rest
    refine ⟨first, ⟨files, rest.map fun span => ⟨span, sizeSum files span⟩,
      replicate files.length true⟩, by simp [share, mapped], rfl, rfl, ?_⟩
    refine ⟨fun pos => ?_, ?_, by simp, ?_, ?_, by simp, ?_⟩
    · rw [groupsEq, ← tiles.cover_eq pos]
      simp
    · exact forall_mem_singleton.mpr (tiles.nonempty first mem_cons_self)
    · intro group groupMem
      rcases mem_map.mp groupMem with ⟨span, spanMem, rfl⟩
      exact tiles.nonempty span (mem_cons_of_mem first spanMem)
    · intro group groupMem
      rcases mem_map.mp groupMem with ⟨span, spanMem, rfl⟩
      rfl
    · intro pos inside
      simp [inside]

/-- A claim takes a nonempty span from the front of the first group and leaves
the rest of the group shared. -/
theorem claim_spec (shared : batch.Shared claims stolen) (maxFiles maxBytes : Nat) :
    (batch.claim maxFiles maxBytes = some (none, batch) ∧ batch.groups = []) ∨
      ∃ span next, batch.claim maxFiles maxBytes = some (some span, next) ∧
        next.files = batch.files ∧ next.owned = batch.owned ∧
        next.Shared (claims ++ [span]) stolen := by
  cases groupsEq : batch.groups with
  | nil => exact .inl ⟨by simp [claim, groupsEq], rfl⟩
  | cons group rest =>
    right
    have groupMem : group ∈ batch.groups := by simp [groupsEq]
    have reach : group.files.off + group.files.len = group.files.stop := rfl
    rcases claimLoop_spec maxFiles maxBytes group.files.off (Nat.le_refl _) reach
      (shared.group_inside groupMem) with ⟨stop, loopEq, lower, upper, progress⟩
    have started : group.files.off < stop := progress rfl (shared.unread group groupMem)
    have nothing : sizeSum batch.files (.between group.files.off group.files.off) = 0 := by
      simp [sizeSum, slice, between]
    rw [nothing] at loopEq
    have sizes := sizeSum_between_add batch.files lower upper
    rw [between_off_stop, ← shared.bytes group groupMem] at sizes
    have left : checkedSub group.bytes (sizeSum batch.files (.between group.files.off stop)) =
        some (sizeSum batch.files (.between stop group.files.stop)) :=
      checkedSub_eq_some_iff.mpr (by omega)
    let unread : FastGroup :=
      ⟨.between stop group.files.stop, sizeSum batch.files (.between stop group.files.stop)⟩
    let next := { batch with groups := if unread.files.len = 0 then rest else unread :: rest }
    have nextMem : ∀ other ∈ next.groups,
        (other = unread ∧ 0 < unread.files.len) ∨ other ∈ batch.groups := by
      intro other otherMem
      simp only [next] at otherMem
      rw [groupsEq]
      split at otherMem
      · exact .inr (mem_cons_of_mem group otherMem)
      · rename_i kept
        rcases mem_cons.mp otherMem with rfl | restMem
        · exact .inl ⟨rfl, Nat.pos_of_ne_zero kept⟩
        · exact .inr (mem_cons_of_mem group restMem)
    refine ⟨.between group.files.off stop, next, ?_, rfl, rfl, ?_⟩
    · simp only [claim, groupsEq, loopEq, left, Option.bind_eq_bind, Option.bind_some,
        Option.pure_def, next, unread]
    refine ⟨fun position => ?_, ?_, shared.taken, ?_, ?_, shared.ownedLength, shared.owned⟩
    · have total := shared.partition position
      have cut := count_between_add lower upper position
      rw [between_off_stop] at cut
      rw [groupsEq, map_cons, cover_cons] at total
      have kept : cover (map FastGroup.files
          (if unread.files.len = 0 then rest else unread :: rest)) position =
            unread.files.count position + cover (rest.map FastGroup.files) position := by
        split
        · rename_i empty
          rw [count_of_len_eq_zero empty, Nat.zero_add]
        · rw [map_cons, cover_cons]
      rw [cover_append, cover_cons, cover_nil]
      change _ + _ + cover (map FastGroup.files
        (if unread.files.len = 0 then rest else unread :: rest)) position =
          (between 0 batch.files.length).count position
      simp only [unread] at kept ⊢
      omega
    · refine forall_mem_append.mpr ⟨shared.claimed, forall_mem_singleton.mpr ?_⟩
      simp only [between]
      omega
    · intro other otherMem
      rcases nextMem other otherMem with ⟨rfl, kept⟩ | old
      · exact kept
      · exact shared.unread other old
    · intro other otherMem
      rcases nextMem other otherMem with ⟨rfl, -⟩ | old
      · rfl
      · exact shared.bytes other old

end Shared

/-! ## What a steal takes -/

theorem ownedFiles_append {firstFiles secondFiles : List (Nat × Nat)}
    {firstOwned secondOwned : List Bool} (same : firstFiles.length = firstOwned.length) :
    ownedFiles (firstFiles ++ secondFiles) (firstOwned ++ secondOwned) =
      ownedFiles firstFiles firstOwned ++ ownedFiles secondFiles secondOwned := by
  simp [ownedFiles, zip_append same]

theorem ownedFiles_replicate_true {count : Nat} (same : files.length = count) :
    ownedFiles files (List.replicate count true) = files.map Prod.snd := by
  subst same
  induction files with
  | nil => rfl
  | cons file rest ih =>
    simp only [ownedFiles, length_cons, replicate_succ, zip_cons_cons,
      filter_cons_of_pos, map_cons] at ih ⊢
    rw [ih]

theorem ownedFiles_replicate_false (files : List (Nat × Nat)) (count : Nat) :
    ownedFiles files (List.replicate count false) = [] := by
  induction files generalizing count with
  | nil => rfl
  | cons file rest ih =>
    cases count with
    | zero => rfl
    | succ count =>
      simpa [ownedFiles, replicate_succ] using ih count

/-- A list cut before, inside and after a span. -/
theorem cut_at {α : Type} (items : List α) (span : Span) :
    items = items.take span.off ++ (items.drop span.off).take span.len ++ items.drop span.stop := by
  have rest : items.drop span.stop = (items.drop span.off).drop span.len := by
    rw [drop_drop, stop]
  rw [append_assoc, rest, take_append_drop, take_append_drop]

/-- Disowning a span of owned files takes exactly those files from the owner. -/
theorem ownedFiles_disown (lengths : owned.length = files.length)
    (inside : span.stop ≤ files.length)
    (held : (owned.drop span.off).take span.len = List.replicate span.len true) :
    (ownedFiles files owned : Multiset Nat) =
      ((slice files span).map Prod.snd : Multiset Nat) +
        (ownedFiles files (disown owned span) : Multiset Nat) := by
  have fits : span.off + span.len ≤ files.length := inside
  have filesCut := cut_at files span
  have ownedCut := cut_at owned span
  have headLength : (files.take span.off).length = (owned.take span.off).length := by
    simp [lengths]
  have sliceLength : (slice files span).length = span.len := by
    simp only [slice, length_take, length_drop]
    omega
  have bodyLength : ∀ flag, (files.take span.off ++ slice files span).length =
      (owned.take span.off ++ replicate span.len flag).length := by
    intro flag
    rw [length_append, length_append, headLength, sliceLength, length_replicate]
  have before : ownedFiles files owned =
      ownedFiles (files.take span.off) (owned.take span.off) ++ (slice files span).map Prod.snd ++
        ownedFiles (files.drop span.stop) (owned.drop span.stop) := by
    conv_lhs => rw [filesCut, ownedCut, held]
    change ownedFiles (files.take span.off ++ slice files span ++ files.drop span.stop) _ = _
    rw [ownedFiles_append (bodyLength true), ownedFiles_append headLength,
      ownedFiles_replicate_true sliceLength]
  have after : ownedFiles files (disown owned span) =
      ownedFiles (files.take span.off) (owned.take span.off) ++
        ownedFiles (files.drop span.stop) (owned.drop span.stop) := by
    conv_lhs => rw [filesCut, disown]
    change ownedFiles (files.take span.off ++ slice files span ++ files.drop span.stop) _ = _
    rw [ownedFiles_append (bodyLength false), ownedFiles_append headLength,
      ownedFiles_replicate_false, append_nil]
  rw [before, after]
  simp only [← Multiset.coe_add]
  abel

theorem getElem?_disown (inside : span.stop ≤ owned.length) (pos : Nat) :
    (disown owned span)[pos]? =
      if span.count pos = 0 then owned[pos]? else some false := by
  have fits : span.off + span.len ≤ owned.length := inside
  have headLength : (owned.take span.off).length = span.off := by
    rw [length_take]
    omega
  have bodyLength : (owned.take span.off ++ replicate span.len false).length = span.stop := by
    rw [length_append, headLength, length_replicate, stop]
  unfold disown
  rcases Nat.lt_or_ge pos span.off with before | notBefore
  · have outside : span.count pos = 0 := by
      simp only [Span.count]
      grind
    rw [if_pos outside, append_assoc, getElem?_append_left (by omega),
      getElem?_take_of_lt before]
  · rcases Nat.lt_or_ge pos span.stop with within | after
    · have covered := count_of_mem notBefore within
      rw [covered, if_neg Nat.one_ne_zero, getElem?_append_left (by omega),
        getElem?_append_right (by omega), headLength, getElem?_replicate]
      have below : pos - span.off < span.len := by
        simp only [stop] at within
        omega
      rw [if_pos below]
    · have outside : span.count pos = 0 := by
        simp only [Span.count]
        grind
      rw [if_pos outside, getElem?_append_right (by omega), getElem?_drop]
      congr 1
      omega

theorem length_disown (inside : span.stop ≤ owned.length) :
    (disown owned span).length = owned.length := by
  have fits : span.off + span.len ≤ owned.length := inside
  simp only [disown, length_append, length_take, length_replicate, length_drop, stop]
  omega

namespace Shared

variable {batch : FastBatchState} {claims stolen : List Span}

variable (shared : batch.Shared claims stolen)

include shared

/-- The owner still owns every file of a shared group. -/
theorem group_owned {group : FastGroup} (mem : group ∈ batch.groups) :
    (batch.owned.drop group.files.off).take group.files.len =
      List.replicate group.files.len true := by
  have inside := shared.group_inside mem
  refine ext_getElem? fun i => ?_
  rw [getElem?_replicate]
  by_cases within : i < group.files.len
  · have pos : group.files.off + i < batch.files.length := by
      simp only [stop] at inside
      omega
    have covered : group.files.count (group.files.off + i) = 1 :=
      count_of_mem (Nat.le_add_right _ _) (by simp only [stop]; omega)
    have counted := count_le_cover_of_mem (mem_map_of_mem (f := FastGroup.files) mem)
      (group.files.off + i)
    have total := shared.partition (group.files.off + i)
    have single := count_le_one (.between 0 batch.files.length) (group.files.off + i)
    have notStolen : cover stolen (group.files.off + i) = 0 := by omega
    rw [if_pos within, getElem?_take_of_lt within, getElem?_drop, shared.owned _ pos, notStolen]
    rfl
  · rw [if_neg within, getElem?_eq_none]
    rw [length_take]
    omega

/-- A steal takes the last shared group from the owner, with all its files. -/
theorem popBack_spec :
    (batch.popBack = some (none, batch) ∧ batch.groups = []) ∨
      ∃ span next, batch.popBack = some (some (span, slice batch.files span), next) ∧
        0 < span.len ∧ span.stop ≤ batch.files.length ∧ next.files = batch.files ∧
        next.Shared claims (stolen ++ [span]) ∧
        (ownedFiles batch.files batch.owned : Multiset Nat) =
          ((slice batch.files span).map Prod.snd : Multiset Nat) +
            (ownedFiles next.files next.owned : Multiset Nat) := by
  cases lastEq : batch.groups.getLast? with
  | none => exact .inl ⟨by simp [popBack, lastEq], getLast?_eq_none_iff.mp lastEq⟩
  | some group =>
    right
    have groupMem : group ∈ batch.groups := mem_of_getLast? lastEq
    have inside := shared.group_inside groupMem
    have ownedInside : group.files.stop ≤ batch.owned.length := by
      rw [shared.ownedLength]
      exact inside
    have groupsCut : batch.groups = batch.groups.dropLast ++ [group] :=
      (dropLast_append_getLast? group lastEq).symm
    refine ⟨group.files, { batch with
        groups := batch.groups.dropLast
        owned := disown batch.owned group.files },
      by simp [popBack, lastEq, ownedInside, inside], shared.unread group groupMem, inside, rfl,
      ?_, ownedFiles_disown shared.ownedLength inside (shared.group_owned groupMem)⟩
    have oldMem : ∀ other ∈ batch.groups.dropLast, other ∈ batch.groups := fun _ =>
      mem_of_mem_dropLast
    refine ⟨fun pos => ?_, shared.claimed, ?_, ?_, ?_, ?_, ?_⟩
    · have total := shared.partition pos
      rw [groupsCut, map_append] at total
      simp only [map_cons, map_nil, cover_append, cover_cons] at total ⊢
      omega
    · exact forall_mem_append.mpr
        ⟨shared.taken, forall_mem_singleton.mpr (shared.unread group groupMem)⟩
    · exact fun other otherMem => shared.unread other (oldMem other otherMem)
    · exact fun other otherMem => shared.bytes other (oldMem other otherMem)
    · rw [length_disown ownedInside]
      exact shared.ownedLength
    · intro pos posInside
      rw [getElem?_disown ownedInside, shared.owned pos posInside, cover_append, cover_cons]
      by_cases outside : group.files.count pos = 0
      · simp [outside]
      · simp [outside]

/-- An owner that claimed anything still owns a file. -/
theorem owned_pos (some_ : claims ≠ []) :
    0 < (ownedFiles batch.files batch.owned).length := by
  obtain ⟨span, spanMem⟩ := exists_mem_of_ne_nil claims some_
  have first : span.count span.off = 1 :=
    count_off (shared.claimed span spanMem)
  have covered := count_le_cover_of_mem spanMem span.off
  have total := shared.partition span.off
  have inside : (between 0 batch.files.length).count span.off ≠ 0 := by omega
  have below : span.off < batch.files.length := by
    simpa [between, stop] using (count_ne_zero_iff.mp inside).2
  have atMost := count_le_one (between 0 batch.files.length) span.off
  have notStolen : cover stolen span.off = 0 := by omega
  have flag := shared.owned span.off below
  rw [notStolen] at flag
  have zipped : (batch.files.zip batch.owned)[span.off]? = some (batch.files[span.off], true) :=
    getElem?_zip_eq_some.mpr ⟨getElem?_eq_getElem below, flag⟩
  have kept : (batch.files[span.off], true) ∈ (batch.files.zip batch.owned).filter Prod.snd :=
    mem_filter.mpr ⟨mem_of_getElem? zipped, rfl⟩
  rw [ownedFiles, length_map]
  exact length_pos_of_mem kept

end Shared

end FastBatchState

end Syq.Sched
