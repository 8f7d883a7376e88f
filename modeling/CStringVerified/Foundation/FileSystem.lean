import Mathlib.Data.BitVec
import CStringVerified.Foundation.Pathname

/-!
# File systems

A file system gives names to files: a directory entry is a location with the number of a file, and one
file may have several. A lookup goes from directory to directory; `.` and `..`, links on the way and,
where POSIX follows it, a link at the end are resolved. Directories are not renamed.
-/

namespace Foundation

/-! ## Errors -/

/-- The value of `errno`; 0 is no error. -/
abbrev Errno := Nat

def eperm : Errno := 1
def enoent : Errno := 2
def enxio : Errno := 6
def ebusy : Errno := 16
def eexist : Errno := 17
def enotdir : Errno := 20
def eisdir : Errno := 21
def einval : Errno := 22
def erange : Errno := 34
def enametoolong : Errno := 36
def enotempty : Errno := 39
def eloop : Errno := 40

/-- A sequence that succeeds: both parts do. -/
theorem ok_of_bind {α β : Type} {x : Except Errno α} {f : α → Except Errno β} {b : β}
    (h : (x >>= f) = .ok b) : ∃ a, x = .ok a ∧ f a = .ok b := by
  cases x with
  | error e => cases h
  | ok a => exact ⟨a, rfl, h⟩

/-! ## Nodes -/

/-- File types and permission bits, as in `st_mode`. -/
abbrev Mode := BitVec 32

/-- A user or group ID. -/
abbrev Id := BitVec 32

/-- A file. `data` is what reading gives, or where a link points to. -/
structure Node where
  stMode : Mode
  stUid : Id
  stGid : Id
  data : Text
deriving DecidableEq

def sIfmt : Mode := 0o170000
def sIfreg : Mode := 0o100000
def sIfchr : Mode := 0o020000
def sIfdir : Mode := 0o040000
def sIflnk : Mode := 0o120000
def sIfsock : Mode := 0o140000
def sIfifo : Mode := 0o010000

def sIsreg (m : Mode) : Bool := m &&& sIfmt = sIfreg
def sIschr (m : Mode) : Bool := m &&& sIfmt = sIfchr
def sIsdir (m : Mode) : Bool := m &&& sIfmt = sIfdir
def sIslnk (m : Mode) : Bool := m &&& sIfmt = sIflnk
def sIssock (m : Mode) : Bool := m &&& sIfmt = sIfsock
def sIsfifo (m : Mode) : Bool := m &&& sIfmt = sIfifo

/-- A link is no directory. -/
theorem sIsdir_of_sIslnk {m : Mode} (h : sIslnk m = true) : sIsdir m = false := by
  simp only [sIsdir, sIslnk, decide_eq_true_eq, decide_eq_false_iff_not] at h ⊢
  rw [h]
  decide

theorem sIslnk_of_sIsdir {m : Mode} (h : sIsdir m = true) : sIslnk m = false := by
  refine Bool.eq_false_iff.mpr fun hlink => ?_
  rw [sIsdir_of_sIslnk hlink] at h
  cases h

/-- The permission bits of a node, with set-user-ID, set-group-ID and sticky bit. -/
def Node.perm (n : Node) : Mode := n.stMode &&& 0o7777

/-- `st_size`: a device, a FIFO or a socket has none. -/
def Node.stSize (n : Node) : Nat :=
  if sIsreg n.stMode || sIslnk n.stMode || sIsdir n.stMode then n.data.length else 0

/-- The file with other data. What is written to anything but a regular file is not kept. -/
def Node.withData (n : Node) (data : Text) : Node :=
  if sIsreg n.stMode then { n with data := data } else n

/-! ## Names and files -/

/-- The directory entries of a file system, an earlier one hiding a later one, and its files. A file
without a name stays as long as a stream may use it. -/
structure FileSystem where
  names : List (Loc × Nat)
  inodes : List Node
  valid : ∀ e ∈ names, e.2 < inodes.length
deriving DecidableEq

namespace FileSystem

/-- The number of the file that has a name. -/
def inoIn : List (Loc × Nat) → Loc → Option Nat
  | [], _ => none
  | (l, i) :: rest, loc => if loc = l then some i else inoIn rest loc

def ino (fs : FileSystem) (loc : Loc) : Option Nat := inoIn fs.names loc

def inode (fs : FileSystem) (i : Nat) : Option Node := fs.inodes[i]?

/-- What there is at a location, whether or not it can be reached. -/
def node (fs : FileSystem) (loc : Loc) : Option Node := (fs.ino loc).bind fs.inode

/-- A new file. -/
def put (fs : FileSystem) (loc : Loc) (n : Node) : FileSystem where
  names := (loc, fs.inodes.length) :: fs.names
  inodes := fs.inodes ++ [n]
  valid := by
    intro e he
    rw [List.length_append, List.length_singleton]
    rcases List.mem_cons.mp he with rfl | he
    · exact Nat.lt_succ_self _
    · exact Nat.lt_succ_of_lt (fs.valid e he)

/-- A name goes. -/
def del (fs : FileSystem) (loc : Loc) : FileSystem where
  names := fs.names.filter fun e => e.1 ≠ loc
  inodes := fs.inodes
  valid := fun e he => fs.valid e (List.mem_of_mem_filter he)

/-- A file changes, under all of its names. -/
def set (fs : FileSystem) (i : Nat) (n : Node) : FileSystem where
  names := fs.names
  inodes := fs.inodes.set i n
  valid := fun e he => by
    rw [List.length_set]
    exact fs.valid e he

/-- A file gets another name. -/
def move (fs : FileSystem) (old new : Loc) : FileSystem where
  names := (fs.names.filter fun e => e.1 ≠ new).map fun e => if e.1 = old then (new, e.2) else e
  inodes := fs.inodes
  valid := by
    intro e he
    obtain ⟨e', he', rfl⟩ := List.mem_map.mp he
    have hlt := fs.valid e' (List.mem_of_mem_filter he')
    split
    · exact hlt
    · exact hlt

/-- A file system with one file for each location. -/
def ofList (es : List (Loc × Node)) : FileSystem :=
  es.foldr (fun e fs => fs.put e.1 e.2) ⟨[], [], nofun⟩

section Names

variable {fs fs' : FileSystem} {loc l old new : Loc} {i j : Nat} {n m : Node}

theorem inoIn_mem {es : List (Loc × Nat)} (h : inoIn es l = some i) : (l, i) ∈ es := by
  induction es with
  | nil => cases h
  | cons e es ih =>
    obtain ⟨l', j⟩ := e
    rw [inoIn] at h
    split at h
    · rename_i hl
      rw [hl, Option.some.inj h]
      exact List.mem_cons_self
    · exact List.mem_cons_of_mem _ (ih h)

theorem ino_lt (h : fs.ino l = some i) : i < fs.inodes.length := fs.valid (l, i) (inoIn_mem h)

theorem inode_of_ino (h : fs.ino l = some i) : ∃ n, fs.inode i = some n ∧ fs.node l = some n := by
  have hlt := ino_lt h
  have hi : fs.inode i = some fs.inodes[i] := List.getElem?_eq_getElem hlt
  exact ⟨_, hi, by rw [node, h, Option.bind_some, hi]⟩

theorem ino_of_node (h : fs.node l = some n) : ∃ i, fs.ino l = some i ∧ fs.inode i = some n :=
  Option.bind_eq_some_iff.mp h

theorem node_of_ino (h : fs.ino l = some i) : fs.node l = fs.inode i := by
  rw [node, h, Option.bind_some]

theorem node_eq_none : fs.node l = none ↔ fs.ino l = none := by
  cases hi : fs.ino l with
  | none => simp [node, hi]
  | some i =>
    obtain ⟨n, -, hn⟩ := inode_of_ino hi
    simp [hn]

@[simp] theorem ino_put_self (fs : FileSystem) (loc : Loc) (n : Node) :
    (fs.put loc n).ino loc = some fs.inodes.length := if_pos rfl

theorem ino_put_ne (n : Node) (h : l ≠ loc) : (fs.put loc n).ino l = fs.ino l := if_neg h

@[simp] theorem inode_put_self (fs : FileSystem) (loc : Loc) (n : Node) :
    (fs.put loc n).inode fs.inodes.length = some n := List.getElem?_concat_length

theorem inode_put (h : fs.inode i = some m) (loc : Loc) (n : Node) :
    (fs.put loc n).inode i = some m := by
  have hlt : i < fs.inodes.length := (List.getElem?_eq_some_iff.mp h).1
  exact (List.getElem?_append_left hlt).trans h

@[simp] theorem node_put_self (fs : FileSystem) (loc : Loc) (n : Node) :
    (fs.put loc n).node loc = some n := by
  rw [node, ino_put_self, Option.bind_some, inode_put_self]

theorem node_put_ne (n : Node) (h : l ≠ loc) : (fs.put loc n).node l = fs.node l := by
  rw [node, ino_put_ne n h]
  cases hi : fs.ino l with
  | none => rw [node, hi, Option.bind_none, Option.bind_none]
  | some i =>
    obtain ⟨m, hm, hnode⟩ := inode_of_ino hi
    rw [hnode, Option.bind_some, inode_put hm]

theorem inoIn_filter (es : List (Loc × Nat)) (loc l : Loc) :
    inoIn (es.filter fun e => e.1 ≠ loc) l = if l = loc then none else inoIn es l := by
  induction es with
  | nil => simp [inoIn]
  | cons e es ih =>
    obtain ⟨l', n⟩ := e
    by_cases hl' : l' = loc
    · subst hl'
      rw [List.filter_cons_of_neg (by simp), ih]
      by_cases hl : l = l'
      · rw [if_pos hl, if_pos hl]
      · rw [if_neg hl, if_neg hl, inoIn, if_neg hl]
    · rw [List.filter_cons_of_pos (by simpa using hl')]
      simp only [inoIn]
      by_cases hl : l = l'
      · subst hl
        rw [if_pos rfl, if_pos rfl, if_neg hl']
      · rw [if_neg hl, if_neg hl, ih]

theorem ino_del (fs : FileSystem) (loc l : Loc) :
    (fs.del loc).ino l = if l = loc then none else fs.ino l := inoIn_filter fs.names loc l

@[simp] theorem node_del_self (fs : FileSystem) (loc : Loc) : (fs.del loc).node loc = none := by
  rw [node_eq_none, ino_del, if_pos rfl]

theorem node_del_ne (h : l ≠ loc) : (fs.del loc).node l = fs.node l := by
  rw [node, ino_del, if_neg h]
  rfl

theorem node_del_none (hl : fs.node l = none) (gone : Loc) : (fs.del gone).node l = none := by
  by_cases hgone : l = gone
  · rw [hgone, node_del_self]
  · rw [node_del_ne hgone, hl]

/-- What there is without a name was there with it. -/
theorem node_del_some {gone : Loc} (h : (fs.del gone).node l = some n) : l ≠ gone ∧ fs.node l = some n := by
  have hl : l ≠ gone := by
    rintro rfl
    rw [node_del_self] at h
    cases h
  rw [node_del_ne hl] at h
  exact ⟨hl, h⟩

@[simp] theorem ino_set (fs : FileSystem) (i : Nat) (n : Node) (l : Loc) :
    (fs.set i n).ino l = fs.ino l := rfl

theorem inode_set_self (h : fs.inode i = some m) (n : Node) : (fs.set i n).inode i = some n :=
  List.getElem?_set_self (List.getElem?_eq_some_iff.mp h).1

theorem inode_set_ne (h : i ≠ j) (n : Node) : (fs.set i n).inode j = fs.inode j :=
  List.getElem?_set_ne h

theorem node_set_self (h : fs.ino l = some i) (n : Node) : (fs.set i n).node l = some n := by
  obtain ⟨m, hm, -⟩ := inode_of_ino h
  rw [node, ino_set, h, Option.bind_some, inode_set_self hm]

theorem node_set_ne (h : fs.ino l ≠ some i) (n : Node) : (fs.set i n).node l = fs.node l := by
  rw [node, ino_set, node]
  cases hl : fs.ino l with
  | none => rfl
  | some j =>
    rw [Option.bind_some, Option.bind_some, inode_set_ne]
    rintro rfl
    exact h hl

theorem set_set (fs : FileSystem) (i : Nat) (n m : Node) : (fs.set i n).set i m = fs.set i m := by
  simp only [set, List.set_set]

/-- Nothing changes if a file is replaced by itself. -/
theorem set_self (h : fs.inode i = some n) : fs.set i n = fs := by
  obtain ⟨hlt, rfl⟩ := List.getElem?_eq_some_iff.mp h
  simp only [set, List.set_getElem_self]

theorem node_set_none (fs : FileSystem) (i : Nat) (n : Node) (l : Loc) :
    (fs.set i n).node l = none ↔ fs.node l = none := by
  rw [node_eq_none, node_eq_none, ino_set]

theorem inoIn_map (es : List (Loc × Nat)) (hne : old ≠ new) (l : Loc) :
    inoIn ((es.filter fun e => e.1 ≠ new).map fun e => if e.1 = old then (new, e.2) else e) l =
      if l = new then inoIn es old else if l = old then none else inoIn es l := by
  induction es with
  | nil => simp [inoIn]
  | cons e es ih =>
    obtain ⟨l', i⟩ := e
    by_cases hnew : l' = new
    · subst hnew
      rw [List.filter_cons_of_neg (by simp), ih, inoIn, inoIn, if_neg hne]
      by_cases hl : l = l'
      · rw [if_pos hl, if_pos hl]
      · rw [if_neg hl, if_neg hl, if_neg hl]
    · rw [List.filter_cons_of_pos (by simpa using hnew), List.map_cons]
      by_cases hold : l' = old
      · subst hold
        rw [if_pos rfl, inoIn, ih, inoIn, inoIn, if_pos rfl]
        by_cases hl : l = new
        · rw [if_pos hl, if_pos hl]
        · rw [if_neg hl, if_neg hl, if_neg hl]
          by_cases hl' : l = l'
          · rw [if_pos hl', if_pos hl']
          · rw [if_neg hl', if_neg hl', if_neg hl']
      · have hother : inoIn ((l', i) :: es) old = inoIn es old := if_neg fun h => hold h.symm
        rw [if_neg hold, inoIn, ih, hother, inoIn]
        by_cases hl : l = l'
        · subst hl
          rw [if_pos rfl, if_neg hnew, if_neg hold, if_pos rfl]
        · rw [if_neg hl, if_neg hl]

/-- The new name leads to the file, and the old one is gone. -/
theorem ino_move (fs : FileSystem) (hne : old ≠ new) (l : Loc) :
    (fs.move old new).ino l = if l = new then fs.ino old else if l = old then none else fs.ino l :=
  inoIn_map fs.names hne l

theorem node_move_new (hne : old ≠ new) : (fs.move old new).node new = fs.node old := by
  rw [node, ino_move fs hne, if_pos rfl]
  rfl

theorem node_move_old (hne : old ≠ new) : (fs.move old new).node old = none := by
  rw [node_eq_none, ino_move fs hne, if_neg hne, if_pos rfl]

theorem node_move_ne (hne : old ≠ new) (hold : l ≠ old) (hnew : l ≠ new) :
    (fs.move old new).node l = fs.node l := by
  rw [node, ino_move fs hne, if_neg hnew, if_neg hold]
  rfl

end Names

/-! ## Lookups -/

/-- Where one component leads from a directory. -/
def enter (fs : FileSystem) (dir : Loc) (n : Name) : Except Errno Loc :=
  match fs.node dir with
  | none => .error enoent
  | some d =>
    if !sIsdir d.stMode then .error enotdir
    else .ok (if n = dot then dir else if n = dotdot then dir.dropLast else dir ++ [n])

/-- Where the link at a location points to. One at the end of a lookup counts only if links are
followed there. -/
def linkAt (fs : FileSystem) (follow : Bool) (loc : Loc) (rest : List Name) : Option Text :=
  (fs.node loc).bind fun n =>
    if sIslnk n.stMode && (follow || !rest.isEmpty) then some n.data else none

/-- Go through components, up to a link. -/
def walkWith (fs : FileSystem) (follow : Bool) (onLink : Loc → Text → List Name → Except Errno Loc) :
    Loc → List Name → Except Errno Loc
  | dir, [] => .ok dir
  | dir, n :: rest =>
    match fs.enter dir n with
    | .error e => .error e
    | .ok loc =>
      match fs.linkAt follow loc rest with
      | none => fs.walkWith follow onLink loc rest
      | some target => onLink loc target rest

/-- Where components lead from a directory. At most so many links are followed. -/
def walk (fs : FileSystem) (follow : Bool) : Nat → Loc → List Name → Except Errno Loc
  | 0 => fs.walkWith follow fun _ _ _ => .error eloop
  | links + 1 => fs.walkWith follow fun loc target rest =>
    if target = [] then .error enoent
    else
      let p := route loc.dropLast target
      fs.walk follow links p.dir (p.steps ++ rest)

/-- How many links a lookup may follow. -/
def maxLinks : Nat := 40

/-- The entry that a pathname names: where it is, and what there is. -/
def find (fs : FileSystem) (p : Route) : Except Errno (Loc × Option Node) :=
  (fs.walk false maxLinks p.dir p.names).map fun loc => (loc, fs.node loc)

/-- The file that a pathname leads to: where it is, and what there is. -/
def resolve (fs : FileSystem) (p : Route) : Except Errno (Loc × Option Node) :=
  (fs.walk true maxLinks p.dir p.steps).map fun loc => (loc, fs.node loc)

/-- `lstat`. -/
def lstat (fs : FileSystem) (p : Route) : Except Errno Node :=
  match fs.walk false maxLinks p.dir p.steps with
  | .error e => .error e
  | .ok loc => (fs.node loc).elim (.error enoent) .ok

/-- `stat`. -/
def stat (fs : FileSystem) (p : Route) : Except Errno Node :=
  match fs.walk true maxLinks p.dir p.steps with
  | .error e => .error e
  | .ok loc => (fs.node loc).elim (.error enoent) .ok

/-! ## Changes -/

/-- Make a node where there is none. What is made depends on the directory. Slashes after the name count
unless a directory is made. -/
def create (fs : FileSystem) (p : Route) (isDir : Bool) (make : Node → Node) :
    Except Errno FileSystem :=
  match fs.find p with
  | .error e => .error e
  | .ok (_, some _) => .error eexist
  | .ok (loc, none) =>
    match fs.node loc.dropLast with
    | none => .error enoent
    | some d => if p.slash && !isDir then .error enoent else .ok (fs.put loc (make d))

/-- Change the file a pathname leads to. -/
def update (fs : FileSystem) (p : Route) (f : Node → Except Errno Node) : Except Errno FileSystem :=
  match fs.resolve p with
  | .error e => .error e
  | .ok (_, none) => .error enoent
  | .ok (loc, some n) =>
    match fs.ino loc with
    | none => .error enoent
    | some i => (f n).map fun n' => fs.set i n'

/-- `unlink`. -/
def unlink (fs : FileSystem) (p : Route) : Except Errno FileSystem :=
  match fs.find p with
  | .error e => .error e
  | .ok (_, none) => .error enoent
  | .ok (loc, some n) =>
    if sIsdir n.stMode then .error eisdir
    else if p.slash then .error enotdir
    else .ok (fs.del loc)

/-- `rmdir`. -/
def rmdir (fs : FileSystem) (p : Route) : Except Errno FileSystem :=
  match fs.find p with
  | .error e => .error e
  | .ok (_, none) => .error enoent
  | .ok (loc, some n) =>
    if !sIsdir n.stMode then .error enotdir
    else if p.names.getLast? = some dot then .error einval
    else if loc = [] then .error ebusy
    else if fs.names.any fun e => loc.isPrefixOf e.1 && e.1 ≠ loc then .error enotempty
    else .ok (fs.del loc)

/-- `rename` of something that is no directory, to something that is none. Two names of one file both
stay. -/
def rename (fs : FileSystem) (p q : Route) : Except Errno FileSystem :=
  match fs.find p, fs.find q with
  | .error e, _ => .error e
  | .ok _, .error e => .error e
  | .ok (_, none), .ok _ => .error enoent
  | .ok (old, some n), .ok (new, target) =>
    if p.isDots || q.isDots then .error ebusy
    else if sIsdir n.stMode || target.any fun t => sIsdir t.stMode then .error eisdir
    else if p.slash || q.slash then .error enotdir
    else if fs.ino old = fs.ino new then .ok fs
    else .ok (fs.move old new)

end FileSystem

end Foundation
