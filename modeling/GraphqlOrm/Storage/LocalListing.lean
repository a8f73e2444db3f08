import GraphqlOrm.Foundation.DirectoryTree
import GraphqlOrm.Foundation.Records
import GraphqlOrm.Foundation.ResumedPages
import GraphqlOrm.Storage.Local

/-!
# Listing local blobs

`list_blobs_page` walks the directories below a prefix, depth first and children in the order
of their names, and skips keys up to the token of the page before. Tokens are compared as
whole keys.

## Main result

`listPages_iff`: following the tokens lists every key once exactly where both orders agree at
the end of each page; so does `list_blobs`, with a thousand keys a page.
-/
namespace GraphqlOrm.Storage

open DirectoryTree Outcome

/-- How a listing stops without an answer. -/
inductive ListingHalt where
  | error (source : StorageError)
  | panicked
  | unfinished

structure BlobListPage where
  keys : List String
  nextContinuation : Option String

/-! ### Paths and keys -/

def Component.text : Component → String
  | rootDir => "/"
  | curDir => "."
  | parentDir => ".."
  | normal name => name

def Component.name? : Component → Option String
  | normal name => some name
  | _ => none

def joinSlash (names : List String) : String :=
  String.ofList (['/'].intercalate (names.map String.toList))

def isUploadingTempFile (path : PathBuf) : Bool :=
  (fileName path).any fun name => ".uploading".toList.isSuffixOf name.toList

/-- `sort` on paths with one parent compares their last components. -/
def sortedChildPaths (path : PathBuf) (children : List (String × Entry)) : List PathBuf :=
  (sortBy Prod.fst children).map fun child => path ++ [.normal child.1]

/-- `limit + 1` on `usize`. -/
def incremented (limit : Nat) : Except ListingHalt Nat :=
  if limit + 1 < 2 ^ 64 then .ok (limit + 1) else .error .panicked

/-- `Vec::with_capacity` for strings of 24 bytes each. -/
def withCapacity (count : Nat) : Except ListingHalt Unit :=
  if count * 24 < 2 ^ 63 then .ok () else .error .panicked

def validateBlobPrefix (keyPrefix : String) : Except StorageError Unit :=
  if keyPrefix = "" then .ok () else validateBlobKey keyPrefix

namespace LocalStorageBackend

variable (backend : LocalStorageBackend) (tree : Entry)

/-- `strip_prefix(&self.root)`. -/
def relative (path : PathBuf) : Option PathBuf :=
  if backend.root.isPrefixOf path then some (path.drop backend.root.length) else none

def keyForPath (path : PathBuf) : Option String :=
  (backend.relative path).map fun inner => String.ofList
    ((joinSlash (inner.map Component.text)).toList.map fun c => if c = '\\' then '/' else c)

def isInternalStoragePath (path : PathBuf) : Bool :=
  (backend.relative path).any fun inner => inner.head? = some (.normal internalStorageDir)

/-- `fs::metadata` and `fs::read_dir` in the tree below the root. -/
def metadata (path : PathBuf) : Option Entry :=
  (backend.relative path).bind fun inner => (inner.mapM Component.name?).bind tree.lookup

/-! ### The walk -/

def collectLoop (continuation : Option String) (limit : Nat) :
    Nat → List PathBuf → List String → Except ListingHalt (List String)
  | 0, _, _ => .error .unfinished
  | _ + 1, [], page => .ok page
  | turns + 1, path :: stack, page =>
    if page.length = limit then .ok page
    else if backend.isInternalStoragePath path then collectLoop continuation limit turns stack page
    else match backend.metadata tree path with
      | none => collectLoop continuation limit turns stack page
      | some .file =>
        if isUploadingTempFile path then collectLoop continuation limit turns stack page
        else match backend.keyForPath path with
          | none => collectLoop continuation limit turns stack page
          | some key =>
            if continuation.any (key ≤ ·) then collectLoop continuation limit turns stack page
            else collectLoop continuation limit turns stack (page ++ [key])
      | some (.directory children) =>
        collectLoop continuation limit turns (sortedChildPaths path children ++ stack) page

def collectBlobPage (keyPrefix : String) (continuation : Option String) (limit : Nat) :
    Except ListingHalt (List String) := do
  (validateBlobPrefix keyPrefix).mapError ListingHalt.error
  let start := if keyPrefix = "" then backend.root else join backend.root keyPrefix
  withCapacity limit
  backend.collectLoop tree continuation limit (tree.size + 2) [start] []

def listBlobsPage (keyPrefix : String) (continuation : Option String) (limit : Nat) :
    Except ListingHalt BlobListPage :=
  if limit = 0 then
    .error (.error (.preconditionFailed keyPrefix "list limit must be greater than zero"))
  else do
    let wanted ← incremented limit
    let pageKeys ← backend.collectBlobPage tree keyPrefix continuation wanted
    if limit < pageKeys.length then
      let pageKeys := pageKeys.take limit
      return ⟨pageKeys, pageKeys.getLast?⟩
    else return ⟨pageKeys, none⟩

/-- Follow the tokens until there is none; the first argument bounds the calls. -/
def followPages (keyPrefix : String) (limit : Nat) :
    Nat → Option String → List String → Except ListingHalt (Option (List String))
  | 0, _, _ => .ok none
  | calls + 1, continuation, keys => do
    let page ← backend.listBlobsPage tree keyPrefix continuation limit
    let keys := keys ++ page.keys
    match page.nextContinuation with
    | none => return some keys
    | some token => followPages keyPrefix limit calls (some token) keys

def listBlobs (keyPrefix : String) (calls : Nat) : Except ListingHalt (Option (List String)) :=
  backend.followPages tree keyPrefix 1000 calls none []

/-! ### Paths below the root -/

def pathOf (names : List String) : PathBuf := backend.root ++ names.map .normal

/-- A name on the disk, as keys and temporary files have them. -/
structure ValidName (name : String) : Prop where
  filled : name ≠ ""
  slash : '/' ∉ name.toList
  backslash : '\\' ∉ name.toList

def internal (names : List String) : Bool := names.head? = some internalStorageDir

def uploading (names : List String) : Bool :=
  names.getLast?.any fun name => ".uploading".toList.isSuffixOf name.toList

variable {backend tree} {names : List String}

@[simp] theorem relative_pathOf : backend.relative (backend.pathOf names) =
    some (names.map .normal) := by
  unfold relative pathOf
  rw [if_pos (List.isPrefixOf_iff_prefix.mpr (List.prefix_append _ _)), List.drop_left]

theorem metadata_pathOf : backend.metadata tree (backend.pathOf names) = tree.lookup names := by
  have all : (names.map Component.normal).mapM Component.name? = some names := by
    induction names with
    | nil => rfl
    | cons name names ih =>
      rw [List.map_cons, List.mapM_cons, ih]
      rfl
  unfold metadata
  rw [relative_pathOf, Option.bind_some, all, Option.bind_some]

theorem isInternalStoragePath_pathOf :
    backend.isInternalStoragePath (backend.pathOf names) = internal names := by
  unfold isInternalStoragePath internal
  rw [relative_pathOf, Option.any_some, List.head?_map]
  cases names with
  | nil => rfl
  | cons name names => simp

theorem isUploadingTempFile_pathOf (filled : names ≠ []) :
    isUploadingTempFile (backend.pathOf names) = uploading names := by
  obtain ⟨before, last, rfl⟩ := (List.eq_nil_or_concat names).resolve_left filled
  unfold isUploadingTempFile uploading fileName pathOf
  simp

theorem joinSlash_toList (names : List String) :
    (joinSlash names).toList = ['/'].intercalate (names.map String.toList) := String.toList_ofList

theorem keyForPath_pathOf (valid : ∀ name ∈ names, ValidName name) :
    backend.keyForPath (backend.pathOf names) = some (joinSlash names) := by
  have texts : (names.map Component.normal).map Component.text = names := by
    rw [List.map_map]
    exact List.map_id names
  have same : ((joinSlash names).toList.map fun c => if c = '\\' then '/' else c) =
      (joinSlash names).toList := by
    conv_rhs => rw [← List.map_id (joinSlash names).toList]
    refine List.map_congr_left fun c mem => if_neg ?_
    rintro rfl
    rw [joinSlash_toList] at mem
    rcases Text.mem_intercalate mem with slash | ⟨part, among, own⟩
    · cases slash
    · obtain ⟨name, inside, rfl⟩ := List.mem_map.mp among
      exact (valid name inside).backslash own
  unfold keyForPath
  rw [relative_pathOf, Option.map_some, texts, same, String.ofList_toList]

/-- Keys without empty parts split into the names they were joined from. -/
theorem splitSlash_joinSlash (filled : names ≠ []) (valid : ∀ name ∈ names, ValidName name) :
    splitSlash (joinSlash names) = names := by
  unfold splitSlash
  rw [joinSlash_toList, List.splitOn_intercalate]
  · rw [List.map_map]
    exact (List.map_congr_left fun name _ => String.ofList_toList).trans (List.map_id names)
  · intro part mem
    obtain ⟨name, among, rfl⟩ := List.mem_map.mp mem
    exact (valid name among).slash
  · simpa using filled

/-! ### The order of a walk -/

/-- Files that hold a blob: not in the internal area and not being written. -/
def stored (names : List String) : Bool := !internal names && !uploading names

def listed (continuation : Option String) (names : List String) (entry : Entry) : List String :=
  (((entry.sortedFiles.map (names ++ ·)).filter stored).map joinSlash).filter fun key =>
    continuation.all (· < key)

variable {continuation : Option String} {entry : Entry} {children : List (String × Entry)}

theorem internal_append (inside : internal names = true) (rest : List String) :
    internal (names ++ rest) = true := by
  unfold internal at *
  cases names with
  | nil => cases inside
  | cons name names => exact inside

theorem listed_internal (inside : internal names = true) : listed continuation names entry = [] := by
  have none_ : (entry.sortedFiles.map (names ++ ·)).filter stored = [] := by
    rw [List.filter_eq_nil_iff]
    intro file mem
    obtain ⟨rest, _, rfl⟩ := List.mem_map.mp mem
    unfold stored
    rw [internal_append inside]
    exact Bool.false_ne_true
  unfold listed
  rw [none_]
  rfl

theorem listed_file : listed continuation names .file =
    if stored names && continuation.all (· < joinSlash names) then [joinSlash names] else [] := by
  unfold listed
  rw [sortedFiles_file, List.map_singleton, List.append_nil]
  cases kept : stored names with
  | false =>
    rw [List.filter_cons_of_neg (by simp [kept])]
    rfl
  | true =>
    rw [List.filter_cons_of_pos kept]
    rw [List.filter_nil, List.map_singleton, List.filter_cons, Bool.true_and, List.filter_nil]

theorem listed_directory {valid : String → Prop}
    (lawful : (Entry.directory children).Lawful valid) :
    listed continuation names (.directory children) = (sortBy Prod.fst children).flatMap fun child =>
      listed continuation (names ++ [child.1]) child.2 := by
  unfold listed
  rw [sortedFiles_directory lawful, List.map_flatMap, List.filter_flatMap, List.map_flatMap,
    List.filter_flatMap]
  congr 1
  funext child
  rw [List.map_map]
  congr 4
  funext file
  exact (List.append_assoc names [child.1] file).symm

theorem all_lt_iff {key : String} :
    continuation.all (· < key) = true ↔ ¬continuation.any (key ≤ ·) = true := by
  cases continuation with
  | none => exact iff_of_true rfl nofun
  | some token => rw [Option.all_some, Option.any_some, decide_eq_true_eq, decide_eq_true_eq, not_le]

/-! ### The loop -/

section Walk

variable {root : List (String × Entry)} {limit : Nat}

/-- A walk lists the keys below the entries on its stack, up to the limit. -/
theorem collectLoop_spec (lawful : (Entry.directory root).Lawful ValidName) {turns : Nat}
    {stack : List (List String × Entry)} {page : List String}
    (leads : ∀ place ∈ stack, (Entry.directory root).lookup place.1 = some place.2)
    (enough : (stack.map fun place => place.2.size).sum < turns) (room : page.length ≤ limit) :
    backend.collectLoop (.directory root) continuation limit turns
        (stack.map fun place => backend.pathOf place.1) page =
      .ok ((page ++ stack.flatMap fun place => listed continuation place.1 place.2).take limit) := by
  induction turns generalizing stack page with
  | zero => cases enough
  | succ turns ih =>
    cases stack with
    | nil =>
      rw [List.flatMap_nil, List.append_nil, List.take_of_length_le room]
      rfl
    | cons place stack =>
      obtain ⟨names, entry⟩ := place
      have here := leads _ (.head _)
      have later : ∀ place ∈ stack, (Entry.directory root).lookup place.1 = some place.2 :=
        fun place mem => leads place (.tail _ mem)
      obtain ⟨below, valid⟩ := lawful.lookup here
      have positive := size_pos entry
      rw [List.map_cons, List.sum_cons] at enough
      rw [List.map_cons, List.flatMap_cons]
      unfold collectLoop
      split
      next full => rw [List.take_append_of_le_length (by omega), List.take_of_length_le room]
      next open_ =>
        rw [isInternalStoragePath_pathOf, metadata_pathOf, here]
        dsimp only at enough ⊢
        split
        next inside =>
          rw [listed_internal inside, List.nil_append]
          exact ih later (by omega) room
        next outside =>
          cases entry with
          | file =>
            -- The root is a directory, so a file has a name.
            have filled : names ≠ [] := by
              rintro rfl
              cases here
            rw [isUploadingTempFile_pathOf filled, keyForPath_pathOf valid, listed_file]
            unfold stored
            rw [Bool.eq_false_iff.mpr outside, Bool.not_false, Bool.true_and]
            dsimp only
            cases busy : uploading names with
            | true => exact ih later (by omega) room
            | false =>
              rw [Bool.not_false, Bool.true_and, if_neg Bool.false_ne_true]
              by_cases old : continuation.any (joinSlash names ≤ ·) = true
              · rw [if_pos old, if_neg fun fresh => all_lt_iff.mp fresh old, List.nil_append]
                exact ih later (by omega) room
              · rw [if_neg old, if_pos (all_lt_iff.mpr old), ih later (by omega) (by simp; omega),
                  List.append_assoc]
          | directory children =>
            dsimp only
            have pushed : sortedChildPaths (backend.pathOf names) children =
                ((sortBy Prod.fst children).map fun child => (names ++ [child.1], child.2)).map
                  fun place => backend.pathOf place.1 := by
              unfold sortedChildPaths pathOf
              rw [List.map_map]
              refine List.map_congr_left fun child _ => ?_
              simp
            rw [pushed, ← List.map_append, listed_directory below]
            have whole : (sortBy Prod.fst children).flatMap (fun child =>
                listed continuation (names ++ [child.1]) child.2) =
                ((sortBy Prod.fst children).map fun child => (names ++ [child.1], child.2)).flatMap
                  fun place => listed continuation place.1 place.2 := by
              rw [List.flatMap_map]
            rw [whole, ← List.flatMap_append]
            refine ih ?_ ?_ room
            · intro place mem
              rcases List.mem_append.mp mem with new | old
              · obtain ⟨child, among, rfl⟩ := List.mem_map.mp new
                cases below with
                | directory distinct _ _ =>
                  have found := (child_eq_some distinct).mpr (mem_sortBy.mp among)
                  dsimp only at here ⊢
                  rw [lookup_append, here, Option.bind_some, Entry.lookup, found]
                  rfl
              · exact later place old
            · rw [List.map_append, List.sum_append, List.map_map]
              have sizes : ((sortBy Prod.fst children).map fun child => child.2.size).sum =
                  (children.map fun child => child.2.size).sum :=
                ((sortBy_perm Prod.fst children).map _).sum_nat
              rw [Entry.size, sizeOfChildren_eq] at enough
              have same : ((fun place : List String × Entry => place.2.size) ∘
                  fun child : String × Entry => (names ++ [child.1], child.2)) =
                  fun child => child.2.size := rfl
              rw [same, sizes]
              omega

variable {keyPrefix : String}

def namesOf (keyPrefix : String) : List String :=
  if keyPrefix = "" then [] else splitSlash keyPrefix

def keysUnder (tree : Entry) (keyPrefix : String) : List String :=
  (tree.files.filter fun file => stored file && (namesOf keyPrefix).isPrefixOf file).map joinSlash

def walkKeys (tree : Entry) (keyPrefix : String) : List String :=
  sortBy splitSlash (keysUnder tree keyPrefix)

theorem start_eq (valid : validateBlobPrefix keyPrefix = .ok ()) :
    (if keyPrefix = "" then backend.root else join backend.root keyPrefix) =
      backend.pathOf (namesOf keyPrefix) := by
  unfold validateBlobPrefix at valid
  unfold namesOf pathOf
  split at valid
  next empty => rw [if_pos empty, if_pos empty, List.map_nil, List.append_nil]
  next filled => rw [if_neg filled, if_neg filled, join_valid (validateBlobKey_ok.mp valid)]

section

variable (lawful : (Entry.directory root).Lawful ValidName)
include lawful

theorem keysUnder_eq :
    keysUnder (.directory root) keyPrefix =
      (((Entry.directory root).lookup (namesOf keyPrefix)).elim [] fun inner =>
        (inner.files.map (namesOf keyPrefix ++ ·)).filter stored).map joinSlash := by
  unfold keysUnder
  rw [← List.filter_filter, lawful.files_below]
  cases (Entry.directory root).lookup (namesOf keyPrefix) with
  | none => rfl
  | some inner => rfl

/-- The names of a key are those of its file. -/
theorem splitSlash_stored {names : List String}
    {inner : Entry} (leads : (Entry.directory root).lookup names = some inner) :
    ∀ file ∈ (inner.files.map (names ++ ·)).filter stored,
      splitSlash (joinSlash file) = file := by
  intro file mem
  have below := lawful.files_below names
  rw [leads, Option.elim_some] at below
  have own : file ∈ (Entry.directory root).files :=
    List.mem_of_mem_filter (below ▸ List.mem_of_mem_filter mem)
  exact splitSlash_joinSlash (files_ne_nil file own) (lawful.files_valid file own)

theorem walkKeys_eq :
    walkKeys (.directory root) keyPrefix =
      ((Entry.directory root).lookup (namesOf keyPrefix)).elim [] fun inner =>
        listed none (namesOf keyPrefix) inner := by
  unfold walkKeys
  rw [keysUnder_eq lawful]
  cases leads : (Entry.directory root).lookup (namesOf keyPrefix) with
  | none => rfl
  | some inner =>
    rw [Option.elim_some, Option.elim_some]
    have names := splitSlash_stored lawful leads
    have order : ∀ a ∈ (inner.files.map (namesOf keyPrefix ++ ·)).filter stored,
        ∀ b ∈ (inner.files.map (namesOf keyPrefix ++ ·)).filter stored,
          id a ≤ id b ↔ splitSlash (joinSlash a) ≤ splitSlash (joinSlash b) := by
      intro a left b right
      rw [names a left, names b right]
      rfl
    rw [sortBy_map order, sortBy_filter, sortBy_below]
    unfold listed
    exact (List.filter_eq_self.mpr fun _ _ => rfl).symm

theorem walkKeys_nodup :
    (walkKeys (.directory root) keyPrefix).Nodup := by
  unfold walkKeys
  rw [(sortBy_perm _ _).nodup_iff]
  unfold keysUnder
  refine (lawful.files_nodup.filter _).map_on fun a left b right same => ?_
  have first := List.mem_of_mem_filter left
  have second := List.mem_of_mem_filter right
  rw [← splitSlash_joinSlash (files_ne_nil a first) (lawful.files_valid a first), same,
    splitSlash_joinSlash (files_ne_nil b second) (lawful.files_valid b second)]

theorem collectBlobPage_eq (valid : validateBlobPrefix keyPrefix = .ok ()) (room : limit * 24 < 2 ^ 63) :
    backend.collectBlobPage (.directory root) keyPrefix continuation limit =
      .ok ((ResumedPages.behind (walkKeys (.directory root) keyPrefix) continuation).take limit) := by
  unfold collectBlobPage withCapacity
  rw [valid, if_pos room, start_eq valid]
  simp only [Except.mapError, bind, Except.bind]
  rw [walkKeys_eq lawful]
  cases leads : (Entry.directory root).lookup (namesOf keyPrefix) with
  | none =>
    -- Nothing is there: the only path on the stack is dropped.
    have dropped (turns : Nat) : backend.collectLoop (.directory root) continuation limit
        (turns + 2) [backend.pathOf (namesOf keyPrefix)] [] = .ok [] := by
      unfold collectLoop
      rw [metadata_pathOf, leads]
      split
      · rfl
      split
      · rfl
      · rfl
    have none_ : ResumedPages.behind ([] : List String) continuation = [] := rfl
    rw [dropped, Option.elim_none, none_, List.take_nil]
  | some inner =>
    have size := lookup_size_le leads
    have lead : ∀ place ∈ [(namesOf keyPrefix, inner)],
        (Entry.directory root).lookup place.1 = some place.2 := fun place mem => by
      rw [List.mem_singleton.mp mem]
      exact leads
    have enough : ([(namesOf keyPrefix, inner)].map fun place => place.2.size).sum <
        (Entry.directory root).size + 2 := by
      show inner.size + 0 < (Entry.directory root).size + 2
      omega
    have walked : backend.collectLoop (.directory root) continuation limit _ _ [] = _ :=
      collectLoop_spec lawful lead enough (Nat.zero_le _)
    rw [List.map_singleton, List.flatMap_singleton, List.nil_append] at walked
    rw [walked, Option.elim_some]
    unfold listed ResumedPages.behind
    rw [List.filter_filter]
    simp

/-! ### Pages -/

/-- The next page is the one that the order of the walk and the token determine. -/
theorem listBlobsPage_eq (valid : validateBlobPrefix keyPrefix = .ok ()) (positive : 1 ≤ limit)
    (room : (limit + 1) * 24 < 2 ^ 63) :
    backend.listBlobsPage (.directory root) keyPrefix continuation limit =
      .ok ⟨(ResumedPages.page (walkKeys (.directory root) keyPrefix) limit continuation).keys,
        (ResumedPages.page (walkKeys (.directory root) keyPrefix) limit continuation).next⟩ := by
  unfold listBlobsPage incremented
  rw [if_neg (Nat.ne_of_gt positive), if_pos (by omega)]
  simp only [bind, Except.bind]
  rw [collectBlobPage_eq lawful valid room]
  dsimp only
  unfold ResumedPages.page ResumedPages.cut
  split
  · rfl
  · rfl

end

/-- Without memory for one more key than asked for there is no page. -/
theorem listBlobsPage_panicked (valid : validateBlobPrefix keyPrefix = .ok ())
    (positive : 1 ≤ limit) (room : ¬(limit + 1) * 24 < 2 ^ 63) :
    backend.listBlobsPage tree keyPrefix continuation limit = .error .panicked := by
  unfold listBlobsPage incremented
  rw [if_neg (Nat.ne_of_gt positive)]
  split
  · simp only [bind, Except.bind]
    unfold collectBlobPage withCapacity
    rw [valid, if_neg room]
    rfl
  · rfl

section

variable (lawful : (Entry.directory root).Lawful ValidName)
    (valid : validateBlobPrefix keyPrefix = .ok ()) (positive : 1 ≤ limit)
include lawful valid positive

theorem followPages_eq (room : (limit + 1) * 24 < 2 ^ 63) (calls : Nat) (keys : List String) :
    backend.followPages (.directory root) keyPrefix limit calls continuation keys =
      .ok (ResumedPages.follow (walkKeys (.directory root) keyPrefix) limit calls continuation
        keys) := by
  induction calls generalizing continuation keys with
  | zero => rfl
  | succ calls ih =>
    unfold followPages ResumedPages.follow
    rw [listBlobsPage_eq lawful valid positive room]
    simp only [bind, Except.bind]
    cases (ResumedPages.page (walkKeys (.directory root) keyPrefix) limit continuation).next with
    | none => rfl
    | some token => exact ih _

theorem followPages_ok_iff {calls : Nat}
    {keys : List String} :
    backend.followPages (.directory root) keyPrefix limit calls none [] = .ok (some keys) ↔
      (limit + 1) * 24 < 2 ^ 63 ∧ ResumedPages.follow (walkKeys (.directory root) keyPrefix) limit
        calls none [] = some keys := by
  by_cases room : (limit + 1) * 24 < 2 ^ 63
  · rw [followPages_eq lawful valid positive room, Except.ok.injEq, and_iff_right room]
  · refine iff_of_false (fun listed => ?_) fun both => room both.1
    cases calls with
    | zero => cases listed
    | succ calls =>
      unfold followPages at listed
      rw [listBlobsPage_panicked valid positive room] at listed
      cases listed

end

theorem follow_whole_iff (lawful : (Entry.directory root).Lawful ValidName) (positive : 1 ≤ limit) :
    (∃ calls keys, ResumedPages.follow (walkKeys (.directory root) keyPrefix) limit calls none [] =
        some keys ∧ keys.Perm (keysUnder (.directory root) keyPrefix)) ↔
      ResumedPages.Aligned (walkKeys (.directory root) keyPrefix) limit := by
  have sorted : (walkKeys (.directory root) keyPrefix).Perm (keysUnder (.directory root) keyPrefix) :=
    sortBy_perm _ _
  obtain ⟨⟨calls, keys, run⟩, every⟩ :=
    ResumedPages.follow_perm_iff (walkKeys_nodup lawful) positive
  constructor
  · rintro ⟨calls, keys, listed, once⟩
    exact (every calls keys listed).mp (once.trans sorted.symm)
  · exact fun aligned => ⟨calls, keys, run, ((every calls keys run).mpr aligned).trans sorted⟩

/-- Following the tokens ends if a page fits into memory. It lists every key below the prefix
once exactly if, moreover, the keys in the order of their names and in the order of their
texts agree at the end of each page. `list_blobs` follows them with a thousand keys a page. -/
theorem listPages_iff (backend : LocalStorageBackend)
    (lawful : (Entry.directory root).Lawful ValidName)
    (valid : validateBlobPrefix keyPrefix = .ok ()) (positive : 1 ≤ limit) :
    ((limit + 1) * 24 < 2 ^ 63 → ∃ calls keys,
        backend.followPages (.directory root) keyPrefix limit calls none [] = .ok (some keys)) ∧
      ((∃ calls keys,
          backend.followPages (.directory root) keyPrefix limit calls none [] = .ok (some keys) ∧
            keys.Perm (keysUnder (.directory root) keyPrefix)) ↔
        (limit + 1) * 24 < 2 ^ 63 ∧
          ResumedPages.Aligned (sortBy splitSlash (keysUnder (.directory root) keyPrefix)) limit) ∧
      ((∃ calls keys, backend.listBlobs (.directory root) keyPrefix calls = .ok (some keys) ∧
          keys.Perm (keysUnder (.directory root) keyPrefix)) ↔
        ResumedPages.Aligned (sortBy splitSlash (keysUnder (.directory root) keyPrefix)) 1000) := by
  have thousand : 1 ≤ 1000 := by decide
  have ends := (ResumedPages.follow_perm_iff (@walkKeys_nodup root keyPrefix lawful) positive).1
  simp only [listBlobs, followPages_ok_iff lawful valid positive,
    followPages_ok_iff lawful valid thousand, and_assoc, exists_and_left,
    follow_whole_iff lawful positive, follow_whole_iff lawful thousand]
  exact ⟨fun room => ⟨room, ends⟩, Iff.rfl, and_iff_right (by decide)⟩

end Walk

/-! ### A dash comes before a slash -/

def dashedChildren : List (String × Entry) := [("a", .directory [("x", .file)]), ("a-b", .file)]

theorem short_valid {name : String} (among : name ∈ ["a", "b", "x", "y", "a-b"]) :
    ValidName name := by
  simp only [List.mem_cons, List.not_mem_nil, or_false] at among
  rcases among with rfl | rfl | rfl | rfl | rfl <;> exact ⟨by decide, by decide, by decide⟩

theorem dashed_lawful : (Entry.directory dashedChildren).Lawful ValidName := by
  refine .directory (by decide) ?_ ?_
  · rintro child (_ | ⟨_, _ | ⟨_, ⟨⟩⟩⟩)
    · exact short_valid (by decide)
    · exact short_valid (by decide)
  · rintro child (_ | ⟨_, _ | ⟨_, ⟨⟩⟩⟩)
    · refine .directory (by decide) ?_ ?_
      · rintro inner (_ | ⟨_, ⟨⟩⟩)
        exact short_valid (by decide)
      · rintro inner (_ | ⟨_, ⟨⟩⟩)
        exact .file
    · exact .file

/-- Keys whose two orders agree: two of them fill a page, and a third follows. -/
def numberedChildren : List (String × Entry) :=
  [("a", .directory [("x", .file), ("y", .file)]), ("b", .file)]

theorem numbered_lawful : (Entry.directory numberedChildren).Lawful ValidName := by
  refine .directory (by decide) ?_ ?_
  · rintro child (_ | ⟨_, _ | ⟨_, ⟨⟩⟩⟩)
    · exact short_valid (by decide)
    · exact short_valid (by decide)
  · rintro child (_ | ⟨_, _ | ⟨_, ⟨⟩⟩⟩)
    · refine .directory (by decide) ?_ ?_
      · rintro inner (_ | ⟨_, _ | ⟨_, ⟨⟩⟩⟩)
        · exact short_valid (by decide)
        · exact short_valid (by decide)
      · rintro inner (_ | ⟨_, _ | ⟨_, ⟨⟩⟩⟩)
        · exact .file
        · exact .file
    · exact .file

/-- Two pages of numbered keys, and both dashed keys in one call. -/
theorem dashed_whole :
    (∃ calls keys, (LocalStorageBackend.mk [.rootDir]).followPages (.directory numberedChildren) "" 2
        calls none [] = .ok (some keys) ∧
      keys.Perm (keysUnder (.directory numberedChildren) "")) ∧
    (∃ calls keys, (LocalStorageBackend.mk [.rootDir]).followPages (.directory dashedChildren) "" 2
        calls none [] = .ok (some keys) ∧ keys.Perm (keysUnder (.directory dashedChildren) "")) ∧
    ∃ calls keys, (LocalStorageBackend.mk [.rootDir]).listBlobs (.directory dashedChildren) "" calls =
      .ok (some keys) ∧ keys.Perm (keysUnder (.directory dashedChildren) "") := by
  have two : (sortBy splitSlash (keysUnder (.directory dashedChildren) "")).length = 2 := by
    rw [(sortBy_perm _ _).length_eq]
    rfl
  have everything : validateBlobPrefix "" = .ok () := rfl
  have positive : 1 ≤ 2 := by decide
  have dashed := listPages_iff ⟨[.rootDir]⟩ dashed_lawful everything positive
  have numbered := listPages_iff ⟨[.rootDir]⟩ numbered_lawful everything positive
  have order : sortBy splitSlash (keysUnder (.directory numberedChildren) "") =
      ["a/x", "a/y", "b"] := by decide
  refine ⟨numbered.2.1.mpr ⟨by decide, ?_⟩, dashed.2.1.mpr ⟨by decide, ?_⟩, dashed.2.2.mpr ?_⟩
  · rw [order]
    intro pages positive inside
    obtain rfl : pages = 1 := by
      have inside : pages * 2 < 3 := inside
      omega
    exact ⟨by decide, by decide⟩
  · intro pages positive inside
    omega
  · intro pages positive inside
    omega

theorem dashed_skipped : ¬∃ calls keys,
    (LocalStorageBackend.mk [.rootDir]).followPages (.directory dashedChildren) "" 1 calls none [] =
      .ok (some keys) ∧ keys.Perm (keysUnder (.directory dashedChildren) "") := by
  rintro ⟨calls, keys, listed, once⟩
  have all : keysUnder (.directory dashedChildren) "" = ["a/x", "a-b"] := by decide
  rw [all] at once
  -- The token of the first page skips the other key.
  have found (calls : Nat) : (LocalStorageBackend.mk [.rootDir]).followPages
      (.directory dashedChildren) "" 1 (calls + 2) none [] = .ok (some ["a/x"]) := by
    rfl
  rcases calls with _ | _ | calls
  · cases listed
  · cases listed
  · rw [found] at listed
    cases listed
    exact absurd once.length_eq (by decide)

end LocalStorageBackend

end GraphqlOrm.Storage
