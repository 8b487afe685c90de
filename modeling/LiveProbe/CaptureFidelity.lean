/-
LiveProbe/CaptureFidelity.lean

What a capture of the Node agent holds of the paused process.

The queue is read breadth first, and the containers are filled as they come.
`Inv` says of a capture in progress that every object within the depth limit is
still to be read, or has all the properties that are kept of it in its
container.  At the end of the queue nothing is to be read any more: whatever
was met within the limit has been asked for and is covered (`Completed`), in
every run of the pump over the answers of one heap (`capture_completed`).

Scopes past the object budget are the exception, and objects beyond the limit:
of those the container stays empty.
-/
import LiveProbe.CapturePump

open JsString

namespace PauseCapture

/-! ### The paused process -/

/-- The answer for an array: its length, above all of its indices. -/
def DescribesArray (descriptors : List PropertyDescriptor) : Prop :=
  ∃ length, describedLength descriptors = some length ∧
    ∀ d ∈ descriptors, ∀ i, indexOf d.name = some i → i < length

/-- The objects of the paused process, by what the inspector answers for each. -/
structure RemoteHeap where
  getProperties : JsString → Properties
  arrays : ∀ {holder objectId : JsString} {descriptors elements : List PropertyDescriptor} {d : PropertyDescriptor}
    {remote : RemoteObject}, getProperties holder = .ok descriptors → d ∈ descriptors → d.value = some remote →
    remote.objectId = some objectId → remote.subtype = some (js "array") → getProperties objectId = .ok elements →
    DescribesArray elements

/-- The properties that are kept of an object. -/
def kept (options : CaptureOptions) (descriptors : List PropertyDescriptor) : List PropertyDescriptor :=
  (enumerable descriptors).take (options.maxProps + 1)

/-- The capture of an object keeps a property of that name. -/
def Keeps (remote : RemoteHeap) (options : CaptureOptions) (objectId key : JsString) : Prop :=
  ∃ descriptors, remote.getProperties objectId = .ok descriptors ∧
    ∃ d ∈ kept options descriptors, d.name = key

/-! ### What a container holds -/

namespace Content

/-- A property holds the container `ref`. -/
def Refers (ref : ℕ) : Content → Prop
  | record members => ∃ key, members.get? key = some (.container ref)
  | array _ items => ∃ i, items.get? i = some (.container ref)

/-- Every property that is kept is there; an array has its length. -/
def Covers (options : CaptureOptions) (descriptors : List PropertyDescriptor) : Content → Prop
  | record members => ∀ d ∈ kept options descriptors, d.name ∈ members.keys
  | array length _ => describedLength descriptors = some length

variable {options : CaptureOptions} {descriptors : List PropertyDescriptor} {content : Content} {key : JsString}
  {value : CapturedValue} {ref : ℕ}

theorem Refers.of_define (h : (content.define key value).Refers ref) :
    content.Refers ref ∨ value = .container ref := by
  cases content with
  | record members =>
    obtain ⟨name, hname⟩ := h
    rw [JsMap.get?_set] at hname
    split at hname
    · exact .inr (Option.some.inj hname)
    · exact .inl ⟨name, hname⟩
  | array length items =>
    rcases hindex : indexOf key with - | index <;> simp only [define, hindex] at h
    · exact .inl h
    · obtain ⟨i, hi⟩ := h
      rw [JsMap.get?_set] at hi
      split at hi
      · exact .inr (Option.some.inj hi)
      · exact .inl ⟨i, hi⟩

theorem Refers.of_setLength {length : ℕ} (h : (content.setLength length).Refers ref) : content.Refers ref := by
  cases content with
  | record members => exact h
  | array _ items =>
    obtain ⟨i, hi⟩ := h
    rw [JsMap.get?_filter] at hi
    exact ⟨i, (Option.filter_eq_some_iff.mp hi).1⟩

/-- What is covered stays so, for an array when the new index is below the length. -/
theorem Covers.define (h : content.Covers options descriptors)
    (hlength : ∀ length items, content = .array length items → ∀ i, indexOf key = some i → i < length) :
    (content.define key value).Covers options descriptors := by
  cases content with
  | record members => exact fun d hd => JsMap.mem_keys_set.mpr (.inr (h d hd))
  | array length items =>
    rcases hindex : indexOf key with - | index <;> simp only [Content.define, hindex]
    · exact h
    · show describedLength descriptors = some (max length (index + 1))
      rw [Nat.max_eq_left (hlength length items rfl index hindex)]
      exact h

end Content

/-! ### The invariant of the queue -/

/-- What holds while objects met at depth `d` are read; `exempt` are the
containers and objects of which it is not said that they are read. -/
structure Inv (remote : RemoteHeap) (options : CaptureOptions) (exempt : ℕ → JsString → Prop) (d : ℕ)
    (c : Capture) : Prop where
  /-- the objects to be read are in the order of their depths, and the containers know them -/
  tasks : ∀ t ∈ c.tasks, d ≤ t.depth ∧ t.depth ≤ d + 1 ∧ t.depth ≤ options.maxDepth ∧
    ∃ cell, c.cells[t.target]? = some cell ∧ t.objectId ∈ cell.stands ∧ cell.depth = t.depth
  sorted : c.tasks.Pairwise fun t u => t.depth ≤ u.depth
  depths : ∀ (ref : ℕ) cell, c.cells[ref]? = some cell → cell.depth ≤ d + 1
  /-- a container holds none that was met more than a step further -/
  edges : ∀ (ref : ℕ) cell below, c.cells[ref]? = some cell → cell.content.Refers below →
    ∃ cell', c.cells[below]? = some cell' ∧ cell'.depth ≤ cell.depth + 1
  materialized : ∀ objectId ref, c.materializedObjects.get? objectId = some ref → ref < c.cells.length
  /-- an object within the depth limit is to be read, or its container covers it -/
  read : ∀ (ref : ℕ) cell objectId, c.cells[ref]? = some cell → cell.depth ≤ options.maxDepth →
    objectId ∈ cell.stands → ¬ exempt ref objectId →
    (∃ t ∈ c.tasks, t.target = ref ∧ t.objectId = objectId) ∨
      (ref, objectId) ∈ c.requests ∧ ∃ descriptors, remote.getProperties objectId = .ok descriptors ∧
        cell.content.Covers options descriptors
  arrays : ∀ (ref : ℕ) cell, c.cells[ref]? = some cell → cell.content.isArray = true →
    ∃ objectId, cell.stands = [objectId] ∧
      ∀ descriptors, remote.getProperties objectId = .ok descriptors → DescribesArray descriptors
  requested : ∀ p ∈ c.requests, ∃ cell, c.cells[p.1]? = some cell ∧ cell.depth ≤ options.maxDepth
  stands : ∀ (ref : ℕ) cell, c.cells[ref]? = some cell → 0 < cell.depth → cell.stands ≠ []
  /-- a name is one that was kept of an object -/
  names : ∀ (ref : ℕ) cell members key, c.cells[ref]? = some cell → cell.content = .record members →
    key ∈ members.keys → ∃ objectId ∈ cell.stands, Keeps remote options objectId key

variable {remote : RemoteHeap} {options : CaptureOptions} {exempt : ℕ → JsString → Prop} {d target : ℕ}
  {c : Capture} {f : Content → Content} {objectId : JsString}

/-- A cell after a write is a cell before it, with the content changed at the target. -/
theorem Capture.cell_of_write {ref : ℕ} {cell : Cell} (h : (c.write target f).cells[ref]? = some cell) :
    ∃ cell₀, c.cells[ref]? = some cell₀ ∧ cell.stands = cell₀.stands ∧ cell.depth = cell₀.depth ∧
      cell.content = if target = ref then f cell₀.content else cell₀.content := by
  rw [Capture.write_getElem?] at h
  split at h
  · rename_i htarget
    obtain ⟨cell₀, h₀, rfl⟩ := Option.map_eq_some_iff.mp h
    exact ⟨cell₀, h₀, rfl, rfl, by rw [if_pos htarget]⟩
  · rename_i htarget
    exact ⟨cell, h, rfl, rfl, by rw [if_neg htarget]⟩

/-- A cell keeps its place and its depth in a write. -/
theorem Capture.cell_write {ref : ℕ} {cell : Cell} (target : ℕ) (f : Content → Content)
    (h : c.cells[ref]? = some cell) :
    ∃ cell', (c.write target f).cells[ref]? = some cell' ∧ cell'.stands = cell.stands ∧ cell'.depth = cell.depth := by
  rw [Capture.write_getElem?, h]
  split
  · exact ⟨_, rfl, rfl, rfl⟩
  · exact ⟨cell, rfl, rfl, rfl⟩

/-- Writing to a container: new references are near, what was covered stays so, and
an array stays one. -/
theorem Inv.write (h : Inv remote options exempt d c)
    (hrefers : ∀ cell below, c.cells[target]? = some cell → (f cell.content).Refers below →
      cell.content.Refers below ∨ ∃ cell', c.cells[below]? = some cell' ∧ cell'.depth ≤ cell.depth + 1)
    (hcovers : ∀ cell objectId descriptors, c.cells[target]? = some cell → objectId ∈ cell.stands →
      remote.getProperties objectId = .ok descriptors → cell.content.Covers options descriptors →
      (f cell.content).Covers options descriptors)
    (harray : ∀ content, (f content).isArray = content.isArray)
    (hnames : ∀ cell members key, c.cells[target]? = some cell → f cell.content = .record members →
      key ∈ members.keys → (∃ old, cell.content = .record old ∧ key ∈ old.keys) ∨
        ∃ objectId ∈ cell.stands, Keeps remote options objectId key) :
    Inv remote options exempt d (c.write target f) where
  tasks t ht := by
    obtain ⟨hge, hle, hmax, cell, hcell, hid, hdepth⟩ := h.tasks t ht
    obtain ⟨cell', hcell', hstands, hdepth'⟩ := Capture.cell_write target f hcell
    exact ⟨hge, hle, hmax, cell', hcell', hstands ▸ hid, hdepth'.trans hdepth⟩
  sorted := h.sorted
  depths ref cell hcell := by
    obtain ⟨cell₀, hcell₀, -, hdepth, -⟩ := Capture.cell_of_write hcell
    rw [hdepth]
    exact h.depths ref cell₀ hcell₀
  edges ref cell below hcell hbelow := by
    obtain ⟨cell₀, hcell₀, -, hdepth, hcontent⟩ := Capture.cell_of_write hcell
    have near : ∃ cell', c.cells[below]? = some cell' ∧ cell'.depth ≤ cell₀.depth + 1 := by
      rw [hcontent] at hbelow
      split at hbelow
      · rename_i htarget
        subst htarget
        rcases hrefers cell₀ below hcell₀ hbelow with hold | hnew
        · exact h.edges target cell₀ below hcell₀ hold
        · exact hnew
      · exact h.edges ref cell₀ below hcell₀ hbelow
    obtain ⟨cell', hcell', hnear⟩ := near
    obtain ⟨cell'', hcell'', -, hdepth''⟩ := Capture.cell_write target f hcell'
    exact ⟨cell'', hcell'', by rw [hdepth'', hdepth]; exact hnear⟩
  materialized objectId ref hget := by
    show ref < (c.cells.modify target _).length
    rw [List.length_modify]
    exact h.materialized objectId ref hget
  read ref cell objectId hcell hmax hid hexempt := by
    obtain ⟨cell₀, hcell₀, hstands, hdepth, hcontent⟩ := Capture.cell_of_write hcell
    rw [hstands] at hid
    rcases h.read ref cell₀ objectId hcell₀ (hdepth ▸ hmax) hid hexempt with
      htask | ⟨hasked, descriptors, hok, hcover⟩
    · exact .inl htask
    · refine .inr ⟨hasked, descriptors, hok, ?_⟩
      rw [hcontent]
      split
      · rename_i htarget
        subst htarget
        exact hcovers cell₀ objectId descriptors hcell₀ hid hok hcover
      · exact hcover
  arrays ref cell hcell hcell' := by
    obtain ⟨cell₀, hcell₀, hstands, -, hcontent⟩ := Capture.cell_of_write hcell
    rw [hstands]
    refine h.arrays ref cell₀ hcell₀ ?_
    rw [hcontent] at hcell'
    split at hcell'
    · rwa [harray] at hcell'
    · exact hcell'
  requested p hp := by
    obtain ⟨cell, hcell, hdepth⟩ := h.requested p hp
    obtain ⟨cell', hcell', -, hdepth'⟩ := Capture.cell_write target f hcell
    exact ⟨cell', hcell', hdepth'.le.trans hdepth⟩
  stands ref cell hcell hpos := by
    obtain ⟨cell₀, hcell₀, hstands, hdepth, -⟩ := Capture.cell_of_write hcell
    rw [hstands]
    exact h.stands ref cell₀ hcell₀ (hdepth ▸ hpos)
  names ref cell members key hcell hrecord hkey := by
    obtain ⟨cell₀, hcell₀, hstands, -, hcontent⟩ := Capture.cell_of_write hcell
    rw [hstands]
    rw [hcontent] at hrecord
    split at hrecord
    · rename_i htarget
      subst htarget
      rcases hnames cell₀ members key hcell₀ hrecord hkey with ⟨old, hold, hkey⟩ | hnew
      · exact h.names target cell₀ old key hcell₀ hold hkey
      · exact hnew
    · exact h.names ref cell₀ members key hcell₀ hrecord hkey

theorem cell_of_concat {cells : List Cell} {new cell : Cell} {ref : ℕ} (h : (cells ++ [new])[ref]? = some cell) :
    cells[ref]? = some cell ∨ ref = cells.length ∧ cell = new := by
  rcases Nat.lt_trichotomy ref cells.length with hlt | rfl | hgt
  · rw [List.getElem?_append_left hlt] at h
    exact .inl h
  · rw [List.getElem?_concat_length] at h
    exact .inr ⟨rfl, (Option.some.inj h).symm⟩
  · rw [List.getElem?_eq_none (by simp; omega)] at h
    cases h

/-- A cell after a container is created is an old one or the new one. -/
theorem Capture.cell_of_create {object : RemoteObject} {depth ref : ℕ} {cell : Cell}
    (h : (c.create object objectId depth).cells[ref]? = some cell) :
    c.cells[ref]? = some cell ∨
      ref = c.cells.length ∧ cell = { content := createContainer object, stands := [objectId], depth := depth } :=
  cell_of_concat h

theorem Capture.cell_create {ref : ℕ} {cell : Cell} (object : RemoteObject) (objectId : JsString) (depth : ℕ)
    (h : c.cells[ref]? = some cell) : (c.create object objectId depth).cells[ref]? = some cell := by
  rw [Capture.create, List.getElem?_append_left (List.getElem?_eq_some_iff.mp h).1, h]

theorem not_refers_createContainer (object : RemoteObject) (ref : ℕ) : ¬ (createContainer object).Refers ref := by
  unfold createContainer
  split <;> rintro ⟨key, hkey⟩ <;> cases hkey

/-- A container is created, and queued when its depth allows. -/
theorem Inv.create (h : Inv remote options exempt d c) {object : RemoteObject} {queue : List CaptureTask}
    {materialized : JsMap JsString ℕ}
    (harray : object.subtype = some (js "array") → ∀ descriptors, remote.getProperties objectId = .ok descriptors →
      DescribesArray descriptors)
    (hqueue : d < options.maxDepth ∧ queue = [⟨d + 1, objectId, c.cells.length, false⟩] ∨
      options.maxDepth ≤ d ∧ queue = [])
    (hmaterialized : ∀ objectId ref, materialized.get? objectId = some ref → ref ≤ c.cells.length) :
    Inv remote options exempt d { c.create object objectId (d + 1) with
      materializedObjects := materialized, tasks := c.tasks ++ queue } where
  tasks t ht := by
    rcases List.mem_append.mp ht with ht | ht
    · obtain ⟨hge, hle, hmax, cell, hcell, hid, hdepth⟩ := h.tasks t ht
      exact ⟨hge, hle, hmax, cell, Capture.cell_create _ _ _ hcell, hid, hdepth⟩
    · rcases hqueue with ⟨hdepth, rfl⟩ | ⟨-, rfl⟩
      · cases List.mem_singleton.mp ht
        exact ⟨Nat.le_succ d, le_refl _, hdepth, _, List.getElem?_concat_length, List.mem_singleton_self _, rfl⟩
      · cases ht
  sorted := by
    refine List.pairwise_append.mpr ⟨h.sorted, ?_, fun t ht u hu => ?_⟩
    · rcases hqueue with ⟨-, rfl⟩ | ⟨-, rfl⟩
      · exact List.pairwise_singleton _ _
      · exact List.Pairwise.nil
    · rcases hqueue with ⟨-, rfl⟩ | ⟨-, rfl⟩
      · cases List.mem_singleton.mp hu
        exact (h.tasks t ht).2.1
      · cases hu
  depths ref cell hcell := by
    rcases Capture.cell_of_create hcell with hcell | ⟨-, rfl⟩
    · exact h.depths ref cell hcell
    · exact le_refl _
  edges ref cell below hcell hbelow := by
    rcases Capture.cell_of_create hcell with hcell | ⟨-, rfl⟩
    · obtain ⟨cell', hcell', hdepth⟩ := h.edges ref cell below hcell hbelow
      exact ⟨cell', Capture.cell_create _ _ _ hcell', hdepth⟩
    · -- the new container is empty
      exact absurd hbelow (not_refers_createContainer object below)
  materialized objectId ref hget := by
    show ref < (c.cells ++ [_]).length
    rw [List.length_append]
    exact Nat.lt_succ_of_le (hmaterialized objectId ref hget)
  read ref cell o hcell hmax hid hexempt := by
    rcases Capture.cell_of_create hcell with hcell | ⟨rfl, rfl⟩
    · rcases h.read ref cell o hcell hmax hid hexempt with ⟨t, ht, htarget⟩ | hcover
      · exact .inl ⟨t, List.mem_append_left _ ht, htarget⟩
      · exact .inr hcover
    · cases List.mem_singleton.mp hid
      rcases hqueue with ⟨-, rfl⟩ | ⟨hdepth, -⟩
      · exact .inl ⟨_, List.mem_append_right _ (List.mem_singleton_self _), rfl, rfl⟩
      · -- beyond the limit nothing is to be read
        exact absurd hmax (not_le.mpr (Nat.lt_succ_of_le hdepth))
  arrays ref cell hcell hisArray := by
    rcases Capture.cell_of_create hcell with hcell | ⟨rfl, rfl⟩
    · exact h.arrays ref cell hcell hisArray
    · refine ⟨objectId, rfl, harray ?_⟩
      by_contra hsubtype
      rw [createContainer, if_neg hsubtype] at hisArray
      cases hisArray
  requested p hp := by
    obtain ⟨cell, hcell, hdepth⟩ := h.requested p hp
    exact ⟨cell, Capture.cell_create _ _ _ hcell, hdepth⟩
  stands ref cell hcell hpos := by
    rcases Capture.cell_of_create hcell with hcell | ⟨-, rfl⟩
    · exact h.stands ref cell hcell hpos
    · exact List.cons_ne_nil _ _
  names ref cell members key hcell hrecord hkey := by
    rcases Capture.cell_of_create hcell with hcell | ⟨-, rfl⟩
    · exact h.names ref cell members key hcell hrecord hkey
    · have hrecord : createContainer object = .record members := hrecord
      unfold createContainer at hrecord
      split at hrecord
      · cases hrecord
      · cases hrecord
        cases hkey

/-! ### Reading an object -/

theorem mem_of_mem_selectedDescriptors {descriptors : List PropertyDescriptor} {isArray : Bool}
    {descriptor : PropertyDescriptor} (h : descriptor ∈ selectedDescriptors options descriptors isArray) :
    descriptor ∈ descriptors := by
  unfold selectedDescriptors at h
  split at h
  · have h := (List.mem_insertionSort _).mp (List.mem_of_mem_filter h)
    exact List.mem_of_mem_filter (List.mem_of_mem_filter h)
  · exact List.mem_of_mem_filter (List.mem_of_mem_take h)

/-- One descriptor leaves the target as it is, or defines the property. -/
theorem Capture.Added.cell_target {task : CaptureTask} {descriptor : PropertyDescriptor} {c' : Capture} {cell : Cell}
    (h : Capture.Added options task descriptor c c') (hcell : c.cells[task.target]? = some cell) :
    ∃ content, c'.cells[task.target]? = some { cell with content := content } ∧
      (content = cell.content ∧ (cell.content.hasOwn descriptor.name = true ∨ cell.content.isArray = true) ∨
        ∃ value, content = cell.content.define descriptor.name value) := by
  have wrote : ∀ {c : Capture} value, c.cells[task.target]? = some cell →
      (c.write task.target (·.define descriptor.name value)).cells[task.target]? =
        some { cell with content := cell.content.define descriptor.name value } := by
    intro c value hcell
    rw [Capture.write_getElem?, if_pos rfl, hcell]
    rfl
  have hcontent : contentAt c.cells task.target = some cell.content := by rw [contentAt, hcell]; rfl
  cases h with
  | kept h =>
    refine ⟨cell.content, hcell, .inl ⟨rfl, ?_⟩⟩
    rw [Capture.hasOwn, Capture.isArray, hcontent] at h
    exact h
  | wrote value => exact ⟨_, wrote value hcell, .inr ⟨value, rfl⟩⟩
  | met object objectId => exact ⟨_, wrote _ (Capture.cell_create _ _ _ hcell), .inr ⟨_, rfl⟩⟩
  | queued object objectId => exact ⟨_, wrote _ (Capture.cell_create _ _ _ hcell), .inr ⟨_, rfl⟩⟩

/-- An object is being read: what the inspector answered, and the container it is read into. -/
structure Reading (remote : RemoteHeap) (options : CaptureOptions) (exempt : ℕ → JsString → Prop)
    (task : CaptureTask) (descriptors : List PropertyDescriptor) (isArray : Bool) (names : List JsString)
    (c : Capture) : Prop where
  inv : Inv remote options exempt task.depth c
  asked : (task.target, task.objectId) ∈ c.requests
  answer : remote.getProperties task.objectId = .ok descriptors
  limit : task.depth ≤ options.maxDepth
  cell : ∃ cell, c.cells[task.target]? = some cell ∧ task.objectId ∈ cell.stands ∧ cell.depth = task.depth ∧
    cell.content.isArray = isArray ∧
    match cell.content with
    | .record members => ∀ name ∈ names, name ∈ members.keys
    | .array length _ => describedLength descriptors = some length

theorem Capture.Added.requests {task : CaptureTask} {descriptor : PropertyDescriptor} {c' : Capture}
    (h : Capture.Added options task descriptor c c') : c'.requests = c.requests := by
  cases h <;> rfl

theorem isArray_define (key : JsString) (value : CapturedValue) (content : Content) :
    (content.define key value).isArray = content.isArray := by
  cases content with
  | record members => rfl
  | array length items =>
    rw [Content.define]
    split <;> rfl

/-- The index of a property of an array is below the length that the container has. -/
theorem Reading.index_lt {task : CaptureTask} {descriptors : List PropertyDescriptor} {isArray : Bool}
    {names : List JsString} (h : Reading remote options exempt task descriptors isArray names c) {cell : Cell}
    {length : ℕ} {items : JsMap ℕ CapturedValue} (hcell : c.cells[task.target]? = some cell)
    (hcontent : cell.content = .array length items) {descriptor : PropertyDescriptor}
    (hdescriptor : descriptor ∈ descriptors) {i : ℕ} (hi : indexOf descriptor.name = some i) : i < length := by
  obtain ⟨cell', hcell', hid, -, -, hlength⟩ := h.cell
  rw [hcell] at hcell'
  cases hcell'
  rw [hcontent] at hlength
  obtain ⟨objectId, hstands, hdescribes⟩ := h.inv.arrays task.target cell hcell (by rw [hcontent]; rfl)
  rw [hstands, List.mem_singleton] at hid
  obtain ⟨length', hlength', hindices⟩ := hdescribes descriptors (hid ▸ h.answer)
  rw [hlength] at hlength'
  cases hlength'
  exact hindices descriptor hdescriptor i hi

/-- The invariant through one descriptor. -/
theorem Reading.inv_added {task : CaptureTask} {descriptors : List PropertyDescriptor} {isArray : Bool}
    {names : List JsString} (h : Reading remote options exempt task descriptors isArray names c)
    {descriptor : PropertyDescriptor} (hselected : descriptor ∈ selectedDescriptors options descriptors isArray)
    {c' : Capture} (hadded : Capture.Added options task descriptor c c') :
    Inv remote options exempt task.depth c' := by
  obtain ⟨cell₀, hcell₀, hid₀, hdepth₀, hisArray₀, -⟩ := h.cell
  have hdescriptor := mem_of_mem_selectedDescriptors hselected
  -- whatever is written, the containers that cover an object still cover it
  have covers : ∀ {value} cell objectId es, c.cells[task.target]? = some cell → objectId ∈ cell.stands →
      remote.getProperties objectId = .ok es → cell.content.Covers options es →
      (cell.content.define descriptor.name value).Covers options es := by
    intro value cell objectId es hcell _ _ hcovers
    exact hcovers.define fun length items hcontent i hi => h.index_lt hcell hcontent hdescriptor hi
  -- and a name that is new to the target is one that is being read
  have named : ∀ {value} cell members key, c.cells[task.target]? = some cell →
      cell.content.define descriptor.name value = .record members → key ∈ members.keys →
      (∃ old, cell.content = .record old ∧ key ∈ old.keys) ∨
        ∃ objectId ∈ cell.stands, Keeps remote options objectId key := by
    intro value cell members key hcell hdefine hkey
    rw [hcell₀] at hcell
    cases hcell
    rcases hcase : cell₀.content with old | ⟨length, items⟩
    · rw [hcase] at hdefine hisArray₀
      cases hdefine
      rcases JsMap.mem_keys_set.mp hkey with rfl | hold
      · refine .inr ⟨task.objectId, hid₀, descriptors, h.answer, descriptor, ?_, rfl⟩
        rw [← hisArray₀] at hselected
        exact hselected
      · exact .inl ⟨old, rfl, hold⟩
    · have harray := isArray_define descriptor.name value cell₀.content
      rw [hdefine, hcase] at harray
      cases harray
  -- a new container is written into the target once it is there
  have created : ∀ (materialized : JsMap JsString ℕ) {object objectId queue}, descriptor.value = some object →
      object.objectId = some objectId →
      (task.depth < options.maxDepth ∧ queue = [⟨task.depth + 1, objectId, c.cells.length, false⟩] ∨
        options.maxDepth ≤ task.depth ∧ queue = []) →
      (∀ objectId ref, materialized.get? objectId = some ref → ref ≤ c.cells.length) →
      Inv remote options exempt task.depth
        (({ c.create object objectId (task.depth + 1) with
            materializedObjects := materialized, tasks := c.tasks ++ queue } : Capture).write task.target
          (·.define descriptor.name (.container c.cells.length))) := by
    intro materialized object objectId queue hvalue hobject hqueue hmaterialized
    refine Inv.write (h.inv.create (fun hsubtype es hes =>
      remote.arrays h.answer hdescriptor hvalue hobject hsubtype hes) hqueue hmaterialized) ?_ ?_
      (fun content => isArray_define _ _ content) ?_
    · intro cell below hcell hbelow
      rcases hbelow.of_define with hold | hnew
      · exact .inl hold
      · cases hnew
        have hcell₁ := Capture.cell_create object objectId (task.depth + 1) hcell₀
        rw [show (c.create object objectId (task.depth + 1)).cells[task.target]? = some cell from hcell] at hcell₁
        cases hcell₁
        exact .inr ⟨_, List.getElem?_concat_length, by rw [hdepth₀]⟩
    · intro cell o es hcell ho hes hcovers
      have hcell₁ := Capture.cell_create object objectId (task.depth + 1) hcell₀
      rw [show (c.create object objectId (task.depth + 1)).cells[task.target]? = some cell from hcell] at hcell₁
      cases hcell₁
      exact covers cell₀ o es hcell₀ ho hes hcovers
    · intro cell members key hcell hdefine hkey
      have hcell₁ := Capture.cell_create object objectId (task.depth + 1) hcell₀
      rw [show (c.create object objectId (task.depth + 1)).cells[task.target]? = some cell from hcell] at hcell₁
      cases hcell₁
      exact named cell₀ members key hcell₀ hdefine hkey
  cases hadded with
  | kept => exact h.inv
  | wrote value hvalue =>
    refine h.inv.write ?_ covers (fun content => isArray_define _ _ content) named
    intro cell below hcell hbelow
    rcases hbelow.of_define with hold | hnew
    · exact .inl hold
    · obtain ⟨objectId, hget⟩ := hvalue below hnew
      obtain ⟨cell', hcell'⟩ : ∃ cell', c.cells[below]? = some cell' :=
        ⟨_, List.getElem?_eq_getElem (h.inv.materialized objectId below hget)⟩
      rw [hcell₀] at hcell
      cases hcell
      exact .inr ⟨cell', hcell', by rw [hdepth₀]; exact h.inv.depths below cell' hcell'⟩
  | met object objectId hvalue hobject hdepth =>
    have hinv := created c.materializedObjects hvalue hobject (.inr ⟨hdepth, rfl⟩)
      fun o ref hget => (h.inv.materialized o ref hget).le
    rwa [List.append_nil] at hinv
  | queued object objectId hvalue hobject hdepth hbudget =>
    refine created (c.materializedObjects.set objectId c.cells.length) hvalue hobject
      (.inl ⟨hdepth, rfl⟩) fun o ref hget => ?_
    rw [JsMap.get?_set] at hget
    split at hget
    · exact (Option.some.inj hget).ge
    · exact (h.inv.materialized o ref hget).le

/-- One descriptor: the invariant stays, and the property has a name in the container. -/
theorem Reading.added {task : CaptureTask} {descriptors : List PropertyDescriptor} {isArray : Bool}
    {names : List JsString} (h : Reading remote options exempt task descriptors isArray names c)
    {descriptor : PropertyDescriptor} (hselected : descriptor ∈ selectedDescriptors options descriptors isArray)
    {c' : Capture} (hadded : Capture.Added options task descriptor c c') :
    Reading remote options exempt task descriptors isArray (descriptor.name :: names) c' := by
  have hdescriptor := mem_of_mem_selectedDescriptors hselected
  obtain ⟨cell, hcell, hid, hdepth, hisArray, hfilled⟩ := h.cell
  refine ⟨h.inv_added hselected hadded, hadded.requests ▸ h.asked, h.answer, h.limit, ?_⟩
  obtain ⟨content, hcontent, hkept | ⟨value, rfl⟩⟩ := hadded.cell_target hcell
  · obtain ⟨rfl, hskipped⟩ := hkept
    refine ⟨cell, hcontent, hid, hdepth, hisArray, ?_⟩
    rcases hcase : cell.content with members | ⟨length, items⟩
    · rw [hcase] at hfilled hskipped
      refine List.forall_mem_cons.mpr ⟨?_, hfilled⟩
      rcases hskipped with hown | harray
      · exact JsMap.has_eq_true_iff.mp hown
      · cases harray
    · rw [hcase] at hfilled
      exact hfilled
  · refine ⟨_, hcontent, hid, hdepth, (isArray_define _ _ _).trans hisArray, ?_⟩
    rcases hcase : cell.content with members | ⟨length, items⟩
    · rw [hcase] at hfilled
      refine List.forall_mem_cons.mpr ⟨JsMap.mem_keys_set.mpr (.inl rfl), fun name hname => ?_⟩
      exact JsMap.mem_keys_set.mpr (.inr (hfilled name hname))
    · rw [hcase] at hfilled
      rcases hi : indexOf descriptor.name with - | i <;> simp only [Content.define, hi]
      · exact hfilled
      · rw [Nat.max_eq_left (h.index_lt hcell hcase hdescriptor hi)]
        exact hfilled

theorem Reading.foldl {task : CaptureTask} {descriptors l : List PropertyDescriptor} {isArray : Bool}
    {names : List JsString} (h : Reading remote options exempt task descriptors isArray names c)
    (hl : ∀ descriptor ∈ l, descriptor ∈ selectedDescriptors options descriptors isArray) :
    Reading remote options exempt task descriptors isArray ((l.map PropertyDescriptor.name).reverse ++ names)
      (l.foldl (Capture.addDescriptor options task) c) := by
  induction l generalizing c names with
  | nil => exact h
  | cons descriptor l ih =>
    rw [List.map_cons, List.reverse_cons, List.append_assoc]
    exact ih (h.added (hl descriptor List.mem_cons_self) (Capture.addDescriptor_added options task c descriptor))
      fun e he => hl e (List.mem_cons_of_mem _ he)

/-! ### One object after another -/

/-- Of the object that is being read it is not said that it is read. -/
def Without (exempt : ℕ → JsString → Prop) (task : CaptureTask) (ref : ℕ) (objectId : JsString) : Prop :=
  exempt ref objectId ∨ ref = task.target ∧ objectId = task.objectId

theorem Inv.pop {task : CaptureTask} {tasks : List CaptureTask} (h : Inv remote options exempt d c)
    (htasks : c.tasks = task :: tasks) :
    Inv remote options (Without exempt task) task.depth
      (c.shift task tasks) where
  tasks t ht := by
    have hsorted := h.sorted
    rw [htasks] at hsorted
    obtain ⟨-, hle, hmax, hcell⟩ := h.tasks t (by rw [htasks]; exact List.mem_cons_of_mem _ ht)
    -- the queue is sorted: the first task has the least depth of all
    have htask := h.tasks task (by rw [htasks]; exact List.mem_cons_self)
    exact ⟨(List.pairwise_cons.mp hsorted).1 t ht, hle.trans (Nat.succ_le_succ htask.1), hmax, hcell⟩
  sorted := by
    have hsorted := h.sorted
    rw [htasks] at hsorted
    exact (List.pairwise_cons.mp hsorted).2
  depths ref cell hcell := by
    have htask := h.tasks task (by rw [htasks]; exact List.mem_cons_self)
    exact (h.depths ref cell hcell).trans (Nat.succ_le_succ htask.1)
  edges := h.edges
  materialized := h.materialized
  read ref cell objectId hcell hmax hid hexempt := by
    rcases h.read ref cell objectId hcell hmax hid (fun he => hexempt (.inl he)) with
      ⟨t, ht, htarget, hobject⟩ | ⟨hasked, hcover⟩
    · rw [htasks] at ht
      rcases List.mem_cons.mp ht with rfl | ht
      · exact absurd (.inr ⟨htarget.symm, hobject.symm⟩) hexempt
      · exact .inl ⟨t, ht, htarget, hobject⟩
    · exact .inr ⟨List.mem_append_left _ hasked, hcover⟩
  arrays := h.arrays
  requested p hp := by
    rcases List.mem_append.mp hp with hp | hp
    · exact h.requested p hp
    · cases List.mem_singleton.mp hp
      obtain ⟨-, -, hmax, cell, hcell, -, hdepth⟩ := h.tasks task (by rw [htasks]; exact List.mem_cons_self)
      exact ⟨cell, hcell, hdepth.le.trans hmax⟩
  stands := h.stands
  names := h.names

/-- An array gets its length, and the reading of its elements begins. -/
theorem Inv.describe {task : CaptureTask} {descriptors : List PropertyDescriptor}
    (h : Inv remote options exempt task.depth c) (hasked : (task.target, task.objectId) ∈ c.requests)
    (hanswer : remote.getProperties task.objectId = .ok descriptors)
    (hlimit : task.depth ≤ options.maxDepth) {cell : Cell} (hcell : c.cells[task.target]? = some cell)
    (hid : task.objectId ∈ cell.stands) (hdepth : cell.depth = task.depth) :
    Reading remote options exempt task descriptors cell.content.isArray [] (c.describe task descriptors) := by
  -- an array stands for one object, the one that is being read
  have only : ∀ cell', c.cells[task.target]? = some cell' → cell'.content.isArray = true → ∀ objectId ∈ cell'.stands,
      objectId = task.objectId ∧ DescribesArray descriptors := by
    intro cell' hcell' harray objectId hobject
    rw [hcell] at hcell'
    cases hcell'
    obtain ⟨o, hstands, hdescribes⟩ := h.arrays task.target cell hcell harray
    rw [hstands, List.mem_singleton] at hid hobject
    exact ⟨hobject.trans hid.symm, hdescribes descriptors (hid ▸ hanswer)⟩
  unfold Capture.describe
  rcases hlength : describedLength descriptors with - | length
  · refine ⟨h, hasked, hanswer, hlimit, cell, hcell, hid, hdepth, rfl, ?_⟩
    rcases hcase : cell.content with members | ⟨n, items⟩
    · exact List.forall_mem_nil _
    · -- the answer for an array always has a length
      obtain ⟨-, l, hl, -⟩ := only cell hcell (by rw [hcase]; rfl) _ hid
      rw [hlength] at hl
      cases hl
  · refine ⟨h.write ?_ ?_ (fun content => by cases content <;> rfl) ?_, hasked, hanswer, hlimit, ?_⟩
    · exact fun cell' below _ hbelow => .inl hbelow.of_setLength
    · intro cell' objectId es hcell' hobject hes hcovers
      rcases hcase : cell'.content with members | ⟨n, items⟩
      · rw [hcase] at hcovers
        exact hcovers
      · -- the length that is written is the one to be covered
        obtain ⟨rfl, -⟩ := only cell' hcell' (by rw [hcase]; rfl) objectId hobject
        rw [hanswer] at hes
        cases hes
        exact hlength
    · intro cell' members key _ hset hkey
      rcases hcase : cell'.content with old | ⟨n, items⟩
      · rw [hcase] at hset
        cases hset
        exact .inl ⟨_, rfl, hkey⟩
      · rw [hcase] at hset
        cases hset
    · refine ⟨{ cell with content := cell.content.setLength length }, ?_, hid, hdepth, ?_, ?_⟩
      · show (c.write task.target _).cells[task.target]? = _
        rw [Capture.write_getElem?, if_pos rfl, hcell]
        rfl
      · cases cell.content <;> rfl
      · rcases hcase : cell.content with members | ⟨n, items⟩
        · exact List.forall_mem_nil _
        · exact hlength

/-- The object that was read is covered. -/
theorem Reading.finish {task : CaptureTask} {descriptors : List PropertyDescriptor} {isArray : Bool}
    {names : List JsString} (h : Reading remote options (Without exempt task) task descriptors isArray names c)
    (hnames : ∀ d ∈ selectedDescriptors options descriptors isArray, d.name ∈ names) :
    Inv remote options exempt task.depth c := by
  refine { h.inv with read := fun ref cell objectId hcell hmax hid hexempt => ?_ }
  by_cases hcurrent : ref = task.target ∧ objectId = task.objectId
  · obtain ⟨rfl, rfl⟩ := hcurrent
    refine .inr ⟨h.asked, descriptors, h.answer, ?_⟩
    obtain ⟨cell', hcell', -, -, hisArray, hfilled⟩ := h.cell
    rw [hcell] at hcell'
    cases hcell'
    rcases hcase : cell.content with members | ⟨n, items⟩
    · rw [hcase] at hisArray hfilled
      refine fun e he => hfilled e.name (hnames e ?_)
      rw [← hisArray]
      exact he
    · rw [hcase] at hfilled
      exact hfilled
  · exact h.inv.read ref cell objectId hcell hmax hid fun he => he.elim hexempt hcurrent

theorem Capture.Added.firstError {task : CaptureTask} {descriptor : PropertyDescriptor} {c' : Capture}
    (h : Capture.Added options task descriptor c c') : c'.firstError = c.firstError := by
  cases h <;> rfl

/-- An error is never forgotten. -/
theorem Capture.firstError_receive {task : CaptureTask} {answer : Properties}
    (h : (c.receive options task answer).firstError = none) :
    c.firstError = none ∧ ∃ descriptors, answer = .ok descriptors := by
  cases answer with
  | error message => cases h
  | ok descriptors =>
    refine ⟨?_, descriptors, rfl⟩
    obtain ⟨f, hf⟩ := Capture.describe_eq task descriptors c
    have hfold : (c.receive options task (.ok descriptors)).firstError = c.firstError :=
      Capture.foldl_added (P := fun c' => c'.firstError = c.firstError)
        (fun c₁ e c₂ _ h₁ hadded => hadded.firstError.trans h₁) (by rw [hf]; rfl)
    exact hfold.symm.trans h

theorem Inv.step (h : Inv remote options exempt d c)
    (herror : (c.step options remote.getProperties).firstError = none) :
    ∃ d', Inv remote options exempt d' (c.step options remote.getProperties) := by
  unfold Capture.step at herror ⊢
  split at herror
  · exact ⟨d, h⟩
  rename_i task tasks htasks
  obtain ⟨-, descriptors, hanswer⟩ := Capture.firstError_receive herror
  obtain ⟨-, -, hlimit, cell, hcell, hid, hdepth⟩ := h.tasks task (by rw [htasks]; exact List.mem_cons_self)
  refine ⟨task.depth, ?_⟩
  show Inv _ _ _ _ (Capture.receive options task _ _)
  rw [hanswer]
  have hreading := (h.pop htasks).describe (List.mem_append_right _ (List.mem_singleton_self _)) hanswer hlimit
    hcell hid hdepth
  have hisArray : (c.shift task tasks).isArray task.target = cell.content.isArray := by
    show (contentAt c.cells task.target).any (·.isArray) = _
    rw [contentAt, hcell]
    rfl
  rw [Capture.receive, hisArray]
  -- after the last descriptor all that were selected are in the container
  refine (hreading.foldl fun e he => he).finish fun e he => ?_
  rw [List.append_nil, List.mem_reverse]
  exact List.mem_map_of_mem he

theorem Capture.firstError_of_step (h : (c.step options remote.getProperties).firstError = none) :
    c.firstError = none := by
  unfold Capture.step at h
  split at h
  · exact h
  · exact (Capture.firstError_receive h).1

theorem Inv.iterate (h : Inv remote options exempt d c) (n : ℕ)
    (herror : ((Capture.step options remote.getProperties)^[n] c).firstError = none) :
    ∃ d', Inv remote options exempt d' ((Capture.step options remote.getProperties)^[n] c) := by
  induction n with
  | zero => exact ⟨d, h⟩
  | succ n ih =>
    rw [Function.iterate_succ_apply'] at herror ⊢
    obtain ⟨d', h'⟩ := ih (Capture.firstError_of_step herror)
    exact h'.step herror

/-! ### The whole capture -/

/-- A scope that found the budget spent. -/
def Unqueued (options : CaptureOptions) (callFrames : List CallFrameDescriptor) (ref : ℕ) (objectId : JsString) :
    Prop :=
  ref < (keptFrames options callFrames).length ∧
    ¬ ∃ t ∈ (startCapture options callFrames).tasks, t.target = ref ∧ t.objectId = objectId

theorem inv_startCapture (remote : RemoteHeap) (options : CaptureOptions) (callFrames : List CallFrameDescriptor) :
    Inv remote options (Unqueued options callFrames) 0 (startCapture options callFrames) := by
  obtain ⟨c₀, hstarted, hcells, -, hmaterialized, -, -, hrequests⟩ := startCapture_started options callFrames
  have cell : ∀ {ref : ℕ} {cell}, (startCapture options callFrames).cells[ref]? = some cell →
      ∃ frame, (keptFrames options callFrames)[ref]? = some frame ∧ cell = ⟨.record ∅, frameScopeIds frame, 0⟩ := by
    intro ref cell hcell
    rw [hstarted.cells, hcells, List.getElem?_map] at hcell
    obtain ⟨frame, hframe, rfl⟩ := Option.map_eq_some_iff.mp hcell
    exact ⟨frame, hframe, rfl⟩
  refine ⟨fun t ht => ?_, ?_, fun ref c hc => ?_, fun ref c below hc hbelow => ?_, fun objectId ref hget => ?_,
    fun ref c objectId hc _ hid hexempt => ?_, fun ref c hc harray => ?_, ?_, fun ref c hc hpos => ?_,
    fun ref c members key hc hrecord hkey => ?_⟩
  · obtain ⟨hdepth, frame, hframe, hid⟩ := hstarted.tasks t ht
    rw [hdepth]
    refine ⟨le_refl _, Nat.zero_le _, Nat.zero_le _, ⟨.record ∅, frameScopeIds frame, 0⟩, ?_, hid, rfl⟩
    rw [hstarted.cells, hcells, List.getElem?_map, hframe]
    rfl
  · exact List.pairwise_of_forall_mem_list fun t ht u hu => by
      rw [(hstarted.tasks t ht).1, (hstarted.tasks u hu).1]
  · obtain ⟨frame, -, rfl⟩ := cell hc
    exact Nat.zero_le _
  · obtain ⟨frame, -, rfl⟩ := cell hc
    obtain ⟨key, hkey⟩ := hbelow
    cases hkey
  · rw [hstarted.cells, hcells, List.length_map]
    rcases hstarted.materialized objectId ref hget with hlt | hget
    · exact hlt
    · rw [hmaterialized] at hget
      cases hget
  · obtain ⟨frame, hframe, -⟩ := cell hc
    left
    by_contra hnone
    exact hexempt ⟨(List.getElem?_eq_some_iff.mp hframe).1, hnone⟩
  · obtain ⟨frame, -, rfl⟩ := cell hc
    cases harray
  · rw [hstarted.requests, hrequests]
    exact List.forall_mem_nil _
  · obtain ⟨frame, -, rfl⟩ := cell hc
    cases hpos
  · obtain ⟨frame, -, rfl⟩ := cell hc
    cases hrecord
    cases hkey

theorem inv_lastCapture (remote : RemoteHeap) (options : CaptureOptions) (callFrames : List CallFrameDescriptor)
    (herror : (lastCapture options remote.getProperties callFrames).firstError = none) :
    ∃ d, Inv remote options (Unqueued options callFrames) d (lastCapture options remote.getProperties callFrames) :=
  (inv_startCapture remote options callFrames).iterate options.objectBudget herror

/-- The frames and the containers that are there stay, with what they stand for. -/
structure Grows (c c' : Capture) : Prop where
  frameLocals : c'.frameLocals = c.frameLocals
  cells : ∀ (ref : ℕ) cell, c.cells[ref]? = some cell →
    ∃ cell', c'.cells[ref]? = some cell' ∧ cell'.stands = cell.stands ∧ cell'.depth = cell.depth

theorem Grows.refl (c : Capture) : Grows c c := ⟨rfl, fun _ cell h => ⟨cell, h, rfl, rfl⟩⟩

theorem Grows.trans {c c₁ c₂ : Capture} (h : Grows c c₁) (h' : Grows c₁ c₂) : Grows c c₂ := by
  refine ⟨h'.frameLocals.trans h.frameLocals, fun ref cell hcell => ?_⟩
  obtain ⟨cell₁, hcell₁, hstands₁, hdepth₁⟩ := h.cells ref cell hcell
  obtain ⟨cell₂, hcell₂, hstands₂, hdepth₂⟩ := h'.cells ref cell₁ hcell₁
  exact ⟨cell₂, hcell₂, hstands₂.trans hstands₁, hdepth₂.trans hdepth₁⟩

theorem Grows.write (c : Capture) (target : ℕ) (f : Content → Content) : Grows c (c.write target f) :=
  ⟨rfl, fun _ _ h => Capture.cell_write target f h⟩

theorem Grows.create (c : Capture) (object : RemoteObject) (objectId : JsString) (depth : ℕ) :
    Grows c (c.create object objectId depth) :=
  ⟨rfl, fun _ cell h => ⟨cell, Capture.cell_create object objectId depth h, rfl, rfl⟩⟩

theorem Capture.Added.grows {task : CaptureTask} {descriptor : PropertyDescriptor} {c' : Capture}
    (h : Capture.Added options task descriptor c c') : Grows c c' := by
  cases h with
  | kept => exact .refl c
  | wrote => exact .write c _ _
  | met => exact (Grows.create c _ _ _).trans (.write _ _ _)
  | queued object objectId =>
    have h := (Grows.create c object objectId (task.depth + 1)).trans
      (.write _ task.target (·.define descriptor.name (.container c.cells.length)))
    exact ⟨h.frameLocals, h.cells⟩

theorem Grows.step (c : Capture) (getProperties : JsString → Properties) :
    Grows c (c.step options getProperties) := by
  unfold Capture.step
  split
  · exact .refl c
  rename_i task tasks htasks
  have hpop : Grows c (c.shift task tasks) :=
    ⟨rfl, (Grows.refl c).cells⟩
  refine hpop.trans ?_
  rcases getProperties task.objectId with message | descriptors
  · exact ⟨rfl, (Grows.refl _).cells⟩
  · obtain ⟨f, hf⟩ := Capture.describe_eq task descriptors (c.shift task tasks)
    refine Capture.foldl_added (fun c₁ e c₂ _ h₁ hadded => h₁.trans hadded.grows) ?_
    rw [hf]
    exact .write _ _ _

theorem Grows.iterate (c : Capture) (getProperties : JsString → Properties) (n : ℕ) :
    Grows c ((Capture.step options getProperties)^[n] c) := by
  induction n with
  | zero => exact .refl c
  | succ n ih =>
    rw [Function.iterate_succ_apply']
    exact ih.trans (.step _ getProperties)

/-- Of the first `n` containers only what was queued for them is read into them. -/
structure Confined (n : ℕ) (queued : ℕ → JsString → Prop) (c : Capture) : Prop where
  size : n ≤ c.cells.length
  tasks : ∀ t ∈ c.tasks, t.target < n → queued t.target t.objectId
  requests : ∀ p ∈ c.requests, p.1 < n → queued p.1 p.2

variable {n : ℕ} {queued : ℕ → JsString → Prop}

theorem Confined.write (h : Confined n queued c) (target : ℕ) (f : Content → Content) :
    Confined n queued (c.write target f) :=
  ⟨h.size.trans (List.length_modify ..).ge, h.tasks, h.requests⟩

theorem Confined.added {task : CaptureTask} {descriptor : PropertyDescriptor} {c' : Capture}
    (h : Confined n queued c) (hadded : Capture.Added options task descriptor c c') : Confined n queued c' := by
  have created : ∀ object objectId, Confined n queued (c.create object objectId (task.depth + 1)) := fun _ _ =>
    ⟨h.size.trans (by rw [Capture.create, List.length_append]; exact Nat.le_add_right _ _), h.tasks, h.requests⟩
  cases hadded with
  | kept => exact h
  | wrote => exact h.write _ _
  | met object objectId => exact (created object objectId).write _ _
  | queued object objectId =>
    have hc := (created object objectId).write task.target
      (·.define descriptor.name (.container c.cells.length))
    refine ⟨hc.size, fun t ht hlt => ?_, hc.requests⟩
    rcases List.mem_append.mp ht with ht | ht
    · exact h.tasks t ht hlt
    · cases List.mem_singleton.mp ht
      exact absurd hlt (not_lt.mpr h.size)

theorem Confined.step (h : Confined n queued c) (getProperties : JsString → Properties) :
    Confined n queued (c.step options getProperties) := by
  unfold Capture.step
  split
  · exact h
  rename_i task tasks htasks
  have hpop : Confined n queued (c.shift task tasks) := by
    refine ⟨h.size, fun t ht => h.tasks t (by rw [htasks]; exact List.mem_cons_of_mem _ ht), fun p hp hlt => ?_⟩
    rcases List.mem_append.mp hp with hp | hp
    · exact h.requests p hp hlt
    · cases List.mem_singleton.mp hp
      exact h.tasks task (by rw [htasks]; exact List.mem_cons_self) hlt
  rcases getProperties task.objectId with message | descriptors
  · exact ⟨hpop.size, hpop.tasks, hpop.requests⟩
  · obtain ⟨f, hf⟩ := Capture.describe_eq task descriptors (c.shift task tasks)
    refine Capture.foldl_added (fun c₁ e c₂ _ h₁ hadded => h₁.added hadded) ?_
    rw [hf]
    exact hpop.write _ _

/-- Into the container of a frame only its queued scopes are read. -/
theorem confined_lastCapture (options : CaptureOptions) (getProperties : JsString → Properties)
    (callFrames : List CallFrameDescriptor) :
    Confined (keptFrames options callFrames).length (fun ref objectId =>
      ∃ t ∈ (startCapture options callFrames).tasks, t.target = ref ∧ t.objectId = objectId)
      (lastCapture options getProperties callFrames) := by
  have step : ∀ {c} n, Confined (keptFrames options callFrames).length (fun ref objectId =>
      ∃ t ∈ (startCapture options callFrames).tasks, t.target = ref ∧ t.objectId = objectId) c →
      Confined (keptFrames options callFrames).length (fun ref objectId =>
        ∃ t ∈ (startCapture options callFrames).tasks, t.target = ref ∧ t.objectId = objectId)
        ((Capture.step options getProperties)^[n] c) := by
    intro c n hc
    induction n with
    | zero => exact hc
    | succ n ih =>
      rw [Function.iterate_succ_apply']
      exact ih.step getProperties
  apply step
  obtain ⟨c₀, hstarted, hcells, -, -, -, -, hrequests⟩ := startCapture_started options callFrames
  refine ⟨?_, fun t ht _ => ⟨t, ht, rfl, rfl⟩, ?_⟩
  · rw [hstarted.cells, hcells, List.length_map]
  · rw [hstarted.requests, hrequests]
    exact List.forall_mem_nil _

/-! ### The end of a capture -/

/-- What a capture without an error calls back with. -/
structure Completed (remote : RemoteHeap) (options : CaptureOptions) (callFrames : List CallFrameDescriptor)
    (raw : RawCapture) : Prop where
  /-- a container holds none that was met more than a step further -/
  edges : ∀ (ref : ℕ) cell below, raw.cells[ref]? = some cell → cell.content.Refers below →
    ∃ cell', raw.cells[below]? = some cell' ∧ cell'.depth ≤ cell.depth + 1
  frames : ∀ (i : ℕ) ref, raw.frameLocals[i]? = some (some ref) → ∃ cell, raw.cells[ref]? = some cell ∧ cell.depth = 0
  /-- what was met within the depth limit was asked for, and every name that is kept
  of it is there; the scopes of a frame only where they fit the budget -/
  read : ∀ (ref : ℕ) cell objectId, raw.cells[ref]? = some cell → cell.depth ≤ options.maxDepth →
    objectId ∈ cell.stands →
    (ref < (keptFrames options callFrames).length →
      scopeCount ((keptFrames options callFrames).take (ref + 1)) ≤ options.objectBudget) →
    (ref, objectId) ∈ raw.requests ∧ ∃ descriptors, remote.getProperties objectId = .ok descriptors ∧
      cell.content.Covers options descriptors
  stands : ∀ (ref : ℕ) cell, raw.cells[ref]? = some cell → 0 < cell.depth → cell.stands ≠ []
  /-- nothing beyond the depth limit was asked for -/
  requested : ∀ ref objectId, (ref, objectId) ∈ raw.requests → ∃ cell, raw.cells[ref]? = some cell ∧
    cell.depth ≤ options.maxDepth
  /-- a frame whose scopes were all asked for fits the budget -/
  scopes : ∀ (ref : ℕ) cell, raw.cells[ref]? = some cell → ref < (keptFrames options callFrames).length →
    (∀ objectId ∈ cell.stands, (ref, objectId) ∈ raw.requests) → cell.stands = [] ∨
      scopeCount ((keptFrames options callFrames).take (ref + 1)) ≤ options.objectBudget
  /-- a name that is there was kept of an object that the container stands for -/
  names : ∀ (ref : ℕ) cell members key, raw.cells[ref]? = some cell → cell.content = .record members →
    key ∈ members.keys → ∃ objectId ∈ cell.stands, Keeps remote options objectId key

variable {callFrames : List CallFrameDescriptor} {raw : RawCapture}

/-- The frames of the capture are those of the start. -/
theorem lastCapture_frames (remote : RemoteHeap) (options : CaptureOptions) (callFrames : List CallFrameDescriptor) :
    (∀ (i : ℕ) ref, (lastCapture options remote.getProperties callFrames).frameLocals[i]? = some (some ref) →
      ∃ cell, (lastCapture options remote.getProperties callFrames).cells[ref]? = some cell ∧ cell.depth = 0) ∧
    (keptFrames options callFrames ≠ [] →
      ∃ ref, (lastCapture options remote.getProperties callFrames).frameLocals[0]? = some (some ref)) ∧
    ∀ (ref : ℕ) cell, (lastCapture options remote.getProperties callFrames).cells[ref]? = some cell →
      ref < (keptFrames options callFrames).length → ∃ frame, (keptFrames options callFrames)[ref]? = some frame ∧
        cell.stands = frameScopeIds frame := by
  obtain ⟨c₀, hstarted, hcells, hlocals, -⟩ := startCapture_started options callFrames
  have hgrows : Grows (startCapture options callFrames) (lastCapture options remote.getProperties callFrames) :=
    .iterate _ _ _
  have start : ∀ (i : ℕ) frame, (keptFrames options callFrames)[i]? = some frame →
      ∃ cell, (lastCapture options remote.getProperties callFrames).cells[i]? = some cell ∧
        cell.stands = frameScopeIds frame ∧ cell.depth = 0 := by
    intro i frame hframe
    refine hgrows.cells i ⟨.record ∅, frameScopeIds frame, 0⟩ ?_
    rw [hstarted.cells, hcells, List.getElem?_map, hframe]
    rfl
  refine ⟨fun i ref hi => ?_, fun hne => ?_, fun ref cell hcell hlt => ?_⟩
  · rw [hgrows.frameLocals] at hi
    have hi := hstarted.frameLocals i ref hi
    rw [hlocals, List.getElem?_map] at hi
    obtain ⟨j, hj, hjref⟩ := Option.map_eq_some_iff.mp hi
    cases hjref
    have hlt : i < (keptFrames options callFrames).length := by
      have h := (List.getElem?_eq_some_iff.mp hj).1
      rwa [List.length_range] at h
    rw [List.getElem?_range hlt] at hj
    cases hj
    obtain ⟨cell, hcell, -, hdepth⟩ := start i _ (List.getElem?_eq_getElem hlt)
    exact ⟨cell, hcell, hdepth⟩
  · refine ⟨0, ?_⟩
    rw [hgrows.frameLocals, hstarted.first, hlocals, List.getElem?_map,
      List.getElem?_range (List.length_pos_iff.mpr hne)]
    rfl
  · obtain ⟨cell', hcell', hstands, -⟩ := start ref _ (List.getElem?_eq_getElem hlt)
    rw [hcell] at hcell'
    cases hcell'
    exact ⟨_, List.getElem?_eq_getElem hlt, hstands⟩

theorem queued_of_fits {ref : ℕ} {objectId : JsString}
    (hfits : ref < (keptFrames options callFrames).length →
      scopeCount ((keptFrames options callFrames).take (ref + 1)) ≤ options.objectBudget)
    (hstands : ∀ frame, (keptFrames options callFrames)[ref]? = some frame → objectId ∈ frameScopeIds frame) :
    ¬ Unqueued options callFrames ref objectId := by
  rintro ⟨hlt, hnone⟩
  obtain ⟨c₀, hstarted, -⟩ := startCapture_started options callFrames
  have hframe := List.getElem?_eq_getElem hlt
  exact hnone (hstarted.whole ref _ hframe (hfits hlt) objectId (hstands _ hframe))

/-- The frames whose scopes are all read fit the budget. -/
theorem fits_of_requested {getProperties : JsString → Properties} {ref : ℕ} {frame : CallFrameDescriptor}
    (hframe : (keptFrames options callFrames)[ref]? = some frame)
    (hall : ∀ objectId ∈ frameScopeIds frame,
      (ref, objectId) ∈ (lastCapture options getProperties callFrames).requests) :
    frameScopeIds frame = [] ∨ scopeCount ((keptFrames options callFrames).take (ref + 1)) ≤ options.objectBudget := by
  by_cases hne : frameScopeIds frame = []
  · exact .inl hne
  obtain ⟨c₀, hstarted, -⟩ := startCapture_started options callFrames
  refine .inr (hstarted.fits ref frame hframe hne fun objectId hid => ?_)
  exact (confined_lastCapture options getProperties callFrames).requests _ (hall objectId hid)
    (List.getElem?_eq_some_iff.mp hframe).1

/-- What holds of the containers of the last capture. -/
theorem completed_lastCapture (herror : (lastCapture options remote.getProperties callFrames).firstError = none)
    (ref : ℕ) :
    Completed remote options callFrames
      ⟨(lastCapture options remote.getProperties callFrames).cells, ref,
        (lastCapture options remote.getProperties callFrames).frameLocals,
        (lastCapture options remote.getProperties callFrames).stack,
        (lastCapture options remote.getProperties callFrames).requests⟩ := by
  obtain ⟨hlocals, hfirst, hstands⟩ := lastCapture_frames remote options callFrames
  obtain ⟨d, inv⟩ := inv_lastCapture remote options callFrames herror
  have htasks := lastCapture_tasks options remote.getProperties callFrames
  refine ⟨inv.edges, hlocals, ?_, inv.stands, fun ref objectId h => inv.requested (ref, objectId) h, ?_,
    inv.names⟩
  · intro ref cell objectId hcell hdepth hid hfits
    have hqueued := queued_of_fits hfits fun frame hframe => by
      obtain ⟨frame', hframe', hstands'⟩ := hstands ref cell hcell (List.getElem?_eq_some_iff.mp hframe).1
      rw [hframe] at hframe'
      cases hframe'
      exact hstands' ▸ hid
    rcases inv.read ref cell objectId hcell hdepth hid hqueued with ⟨t, ht, -⟩ | hread
    · rw [htasks] at ht
      cases ht
    · exact hread
  · intro ref cell hcell hlt hall
    obtain ⟨frame, hframe, hstands'⟩ := hstands ref cell hcell hlt
    rw [hstands'] at hall ⊢
    exact fits_of_requested hframe hall

/-- A new container that is empty and stands for nothing. -/
theorem Completed.concat (h : Completed remote options callFrames raw) :
    Completed remote options callFrames { raw with
      cells := raw.cells ++ [{ content := .record ∅, stands := [], depth := 0 }], root := raw.cells.length } := by
  have old : ∀ {ref : ℕ} {cell}, raw.cells[ref]? = some cell → ∀ new : Cell,
      (raw.cells ++ [new])[ref]? = some cell := by
    intro ref cell hcell new
    rw [List.getElem?_append_left (List.getElem?_eq_some_iff.mp hcell).1, hcell]
  refine ⟨fun ref cell below hcell hbelow => ?_, fun i ref hi => ?_,
    fun ref cell objectId hcell hdepth hid hfits => ?_, fun ref cell hcell hpos => ?_, fun ref objectId hid => ?_,
    fun ref cell hcell hlt hall => ?_, fun ref cell members key hcell hrecord hkey => ?_⟩
  · rcases cell_of_concat hcell with hcell | ⟨-, rfl⟩
    · obtain ⟨cell', hcell', hnear⟩ := h.edges ref cell below hcell hbelow
      exact ⟨cell', old hcell' _, hnear⟩
    · obtain ⟨key, hkey⟩ := hbelow
      cases hkey
  · obtain ⟨cell, hcell, hdepth⟩ := h.frames i ref hi
    exact ⟨cell, old hcell _, hdepth⟩
  · rcases cell_of_concat hcell with hcell | ⟨-, rfl⟩
    · exact h.read ref cell objectId hcell hdepth hid hfits
    · cases hid
  · rcases cell_of_concat hcell with hcell | ⟨-, rfl⟩
    · exact h.stands ref cell hcell hpos
    · cases hpos
  · obtain ⟨cell, hcell, hdepth⟩ := h.requested ref objectId hid
    exact ⟨cell, old hcell _, hdepth⟩
  · rcases cell_of_concat hcell with hcell | ⟨-, rfl⟩
    · exact h.scopes ref cell hcell hlt hall
    · exact .inl rfl
  · rcases cell_of_concat hcell with hcell | ⟨-, rfl⟩
    · exact h.names ref cell members key hcell hrecord hkey
    · cases hrecord
      cases hkey

/-- A capture that keeps a frame, or needs none. -/
theorem completed (hkept : 0 < options.maxStackFrames ∨ ∀ frame ∈ callFrames.head?, frameScopeIds frame = [])
    (hcapture : capturePaused options remote.getProperties callFrames = (none, raw)) :
    Completed remote options callFrames raw ∧ ∃ cell, raw.cells[raw.root]? = some cell ∧ cell.depth = 0 := by
  obtain ⟨herror, hraw⟩ := Prod.mk.inj hcapture
  obtain ⟨hlocals, hfirst, -⟩ := lastCapture_frames remote options callFrames
  unfold finish at hraw
  split at hraw
  · rename_i ref hhead
    subst hraw
    exact ⟨completed_lastCapture herror ref, hlocals 0 ref (by rw [← List.head?_eq_getElem?]; exact hhead)⟩
  · rename_i hhead
    subst hraw
    have hempty : (callFrames.head?.map frameScopeIds).getD [] = [] := by
      rcases hframes : callFrames with - | ⟨frame, others⟩
      · rfl
      rcases hkept with hkept | hkept
      · obtain ⟨ref, href⟩ := hfirst (by rw [keptFrames, hframes, List.take_cons hkept]; exact List.cons_ne_nil _ _)
        exact absurd (by rw [List.head?_eq_getElem?]; exact href) (hhead ref)
      · exact hkept frame (by rw [hframes]; rfl)
    -- the variables are new, and stand for no scope
    rw [hempty]
    exact ⟨(completed_lastCapture herror 0).concat, _, List.getElem?_concat_length, rfl⟩

namespace Sample

/-- The blocks of the two frames, and the objects in them, which hold nothing. -/
def blocks : RemoteHeap where
  getProperties objectId :=
    if objectId = js "a" then .ok [holding (js "user") (js "u")]
    else if objectId = js "b" then .ok [holding (js "user") (js "u"), holding (js "order") (js "o")]
    else .ok []
  arrays := by
    intro holder objectId descriptors elements d remote hanswer hd hvalue _ harray
    -- what the blocks hold are no arrays
    have hplain : ∀ d ∈ descriptors, ∀ remote, d.value = some remote → remote.subtype = none := by
      split_ifs at hanswer
      all_goals
        cases hanswer
        simp [holding]
    rw [hplain d hd remote hvalue] at harray
    cases harray

end Sample

end PauseCapture
