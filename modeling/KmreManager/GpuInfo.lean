import KmreManager.DisplayTypeManager
import KmreManager.QString
import KmreManager.Lib.Ownership

/-! # The graphics card

kmre/wm/gpuinfo.cpp. The manager asks the X server for a descriptor of the card
it draws with, takes another card if the user prefers one, and reads from it who
made it and what the numbers of its device nodes are. -/
namespace KmreManager.GpuInfo

open Lib.Runs Lib.Ownership DisplayTypeManager

/-! ## Devices and their tags -/

structure PciBusInfo where
  domain : UInt16
  bus : UInt8
  dev : UInt8
  func : UInt8
deriving DecidableEq

inductive BusInfo
  | pci (bus : PciBusInfo)
  | platform (fullname : QString)
  | host1x (fullname : QString)
  | usb (bus dev : UInt8)
deriving DecidableEq

/-- `%0<width>x` -/
def hex (width n : Nat) : QString := (Nat.toDigits 16 n).leftpad width '0'

/-- What comes after the last slash. -/
def lastName (fullname : QString) : QString := fullname.rtakeWhile (· ≠ '/')

def platformTag (fullname : QString) : QString :=
  let name := lastName fullname
  if '@' ∈ name then
    "platform-".toList ++ (name.dropWhile (· ≠ '@')).tail ++ '_' :: name.takeWhile (· ≠ '@')
  else "platform-".toList ++ name

def drm_construct_id_path_tag : BusInfo → Option QString
  | .pci b =>
    some ("pci-".toList ++ hex 4 b.domain.toNat ++ '_' :: (hex 2 b.bus.toNat ++ '_' ::
      (hex 2 b.dev.toNat ++ '_' :: Nat.toDigits 10 b.func.toNat)))
  | .platform fullname | .host1x fullname => some (platformTag fullname)
  | .usb _ _ => none

/-- What the digits of a number say. -/
def hexValue (digits : QString) : Nat :=
  digits.foldl (fun n c => 16 * n + if c.toNat < 58 then c.toNat - 48 else c.toNat - 87) 0

theorem hexValue_concat (digits : QString) {d : Nat} (hd : d < 16) :
    hexValue (digits ++ [Nat.digitChar d]) = 16 * hexValue digits + d := by
  have hdigit : ∀ d < 16, (if (Nat.digitChar d).toNat < 58 then (Nat.digitChar d).toNat - 48
      else (Nat.digitChar d).toNat - 87) = d := by decide
  rw [hexValue, List.foldl_append, List.foldl_cons, List.foldl_nil, hdigit d hd]
  rfl

theorem hexValue_toDigits (n : Nat) : hexValue (Nat.toDigits 16 n) = n := by
  induction n using Nat.strongRecOn with
  | ind n ih =>
    have hlast : n % 16 < 16 := Nat.mod_lt _ (by decide)
    rw [Nat.toDigits_eq_if (by decide)]
    split
    · rename_i hn
      exact (hexValue_concat [] hn).trans (by simp [hexValue])
    · rw [hexValue_concat _ hlast, ih (n / 16) (by omega)]
      omega

theorem hexValue_hex (width n : Nat) : hexValue (hex width n) = n := by
  have hzeros : ∀ k, hexValue (List.replicate k '0') = 0 := by
    intro k
    induction k with
    | zero => rfl
    | succ k ih =>
      rw [List.replicate_succ']
      exact (hexValue_concat _ (d := 0) (by decide)).trans (by rw [ih])
  rw [hex, List.leftpad, hexValue, List.foldl_append]
  exact (congrArg (fun z => List.foldl _ z _) (hzeros _)).trans (hexValue_toDigits n)

theorem underscore_not_mem_toDigits (n : Nat) : '_' ∉ Nat.toDigits 16 n := by
  induction n using Nat.strongRecOn with
  | ind n ih =>
    rw [Nat.toDigits_eq_if (by decide)]
    split
    · simp
    · rw [List.mem_append, not_or]
      exact ⟨ih (n / 16) (by omega), by simp⟩

theorem underscore_not_mem_hex (width n : Nat) : '_' ∉ hex width n := by
  rw [hex, List.leftpad, List.mem_append, not_or]
  exact ⟨fun h => absurd (List.eq_of_mem_replicate h) (by decide), underscore_not_mem_toDigits n⟩

theorem hex_field {width : Nat} {m n : Nat} {s s' : QString}
    (h : hex width m ++ '_' :: s = hex width n ++ '_' :: s') : m = n ∧ s = s' := by
  obtain ⟨hdigits, hs⟩ :=
    QString.field_cancel (underscore_not_mem_hex width m) (underscore_not_mem_hex width n) h
  have hvalue := congrArg hexValue hdigits
  rw [hexValue_hex, hexValue_hex] at hvalue
  exact ⟨hvalue, hs⟩

/-- A tag names one place on the PCI bus. -/
theorem pci_tag_injective {b b' : PciBusInfo}
    (h : drm_construct_id_path_tag (.pci b) = drm_construct_id_path_tag (.pci b')) : b = b' := by
  obtain ⟨domain, bus, dev, func⟩ := b
  obtain ⟨domain', bus', dev', func'⟩ := b'
  simp only [drm_construct_id_path_tag, Option.some.injEq, List.append_assoc,
    List.append_cancel_left_eq] at h
  obtain ⟨hdomain, h⟩ := hex_field h
  obtain ⟨hbus, h⟩ := hex_field h
  obtain ⟨hdev, h⟩ := hex_field h
  have hfunc := congrArg (fun digits => Nat.ofDigitChars 10 digits 0) h
  simp only [Nat.ofDigitChars_ten_toDigits] at hfunc
  rw [UInt16.toNat_inj.mp hdomain, UInt8.toNat_inj.mp hbus, UInt8.toNat_inj.mp hdev,
    UInt8.toNat_inj.mp hfunc]

theorem pci_tag_ne_platformTag (b : PciBusInfo) (fullname : QString) :
    drm_construct_id_path_tag (.pci b) ≠ some (platformTag fullname) := by
  intro h
  have hsecond := congrArg (fun tag : QString => tag[1]?) (Option.some.inj h)
  have hplatform : (platformTag fullname)[1]? = some 'l' := by
    unfold platformTag
    dsimp only
    split <;> rfl
  rw [hplatform] at hsecond
  exact absurd (Option.some.inj hsecond) (by decide)

/-- The kernel's numbers are so small that an `int` holds them. -/
structure DevNumber where
  major : Nat
  minor : Nat
deriving DecidableEq

structure Device where
  businfo : BusInfo
  /-- of `deviceinfo.pci`, as the next one: nobody reads it on another bus -/
  vendor_id : UInt16
  device_id : UInt16
  /-- the numbers of the nodes that are among `available_nodes` -/
  primary : Option DevNumber
  render : Option DevNumber
deriving DecidableEq

def drm_device_matches_tag (device : Device) (prime_tag : QString) : Bool :=
  drm_construct_id_path_tag device.businfo = some prime_tag

/-- The devices of a machine. Their places differ, and so do the names of those
that are on no bus, and the numbers of their nodes. -/
structure Machine (ι : Type) where
  device : ι → Device
  place : ∀ i j, (device i).businfo = (device j).businfo → i = j
  name : ∀ i j m n, (device i).businfo ∈ [.platform m, .host1x m] →
    (device j).businfo ∈ [.platform n, .host1x n] → platformTag m = platformTag n → i = j
  primary : ∀ i j n, (device i).primary = some n → (device j).primary = some n → i = j
  render : ∀ i j n, (device i).render = some n → (device j).render = some n → i = j

variable {ι : Type} {m : Machine ι} {i j : ι}

theorem tag_cases {businfo : BusInfo} {tag : QString}
    (h : drm_construct_id_path_tag businfo = some tag) :
    (∃ b, businfo = .pci b) ∨
      ∃ fullname, businfo ∈ [.platform fullname, .host1x fullname] ∧
        tag = platformTag fullname := by
  cases businfo with
  | pci b => exact .inl ⟨b, rfl⟩
  | platform fullname => exact .inr ⟨fullname, by simp, (Option.some.inj h).symm⟩
  | host1x fullname => exact .inr ⟨fullname, by simp, (Option.some.inj h).symm⟩
  | usb bus dev => exact absurd h (Option.some_ne_none tag).symm

/-- A tag names one device. -/
theorem Machine.tag_unique {tag : QString}
    (hi : drm_construct_id_path_tag (m.device i).businfo = some tag)
    (hj : drm_construct_id_path_tag (m.device j).businfo = some tag) : i = j := by
  rcases tag_cases hi with ⟨b, hb⟩ | ⟨fullname, hname, htag⟩
  · rcases tag_cases hj with ⟨b', hb'⟩ | ⟨fullname, hname, htag⟩
    · rw [hb] at hi
      rw [hb'] at hj
      obtain rfl := pci_tag_injective (hi.trans hj.symm)
      exact m.place i j (hb.trans hb'.symm)
    · rw [hb, htag] at hi
      exact absurd hi (pci_tag_ne_platformTag b fullname)
  · rcases tag_cases hj with ⟨b', hb'⟩ | ⟨fullname', hname', htag'⟩
    · rw [hb', htag] at hj
      exact absurd hj (pci_tag_ne_platformTag b' fullname)
    · exact m.name i j fullname fullname' hname hname' (htag.symm.trans htag')

/-! ## What a lookup is told -/

structure Answers (ι : Type) where
  /-- `xcb_connect` has no error -/
  connects : Bool
  screen_number : Nat
  /-- the number of screens of the display -/
  screens : Nat
  /-- the reply to `xcb_dri3_open`: what its descriptors are of -/
  dri3 : Option (List ι)
  /-- `drmGetDevice2` of the descriptor that came -/
  default_device : Bool
  /-- `drmGetDevices2` -/
  devices : Option (List ι)
  /-- `open_device` -/
  opens : Bool
  /-- `drmGetDevice2` of the descriptor in use -/
  device : Bool
  /-- `drmGetDevices2` once more, and `stat` of the two nodes -/
  nodes : Option (List ι)
  statPrimary : Bool
  statRender : Bool
deriving DecidableEq

/-- What one lookup gets hold of. -/
inductive Resource
  | connection
  | reply
  /-- a descriptor of the reply -/
  | fd (k : Nat)
  /-- the descriptor of the card that the user prefers -/
  | preferred
  | prime
  | default_tag
  | id_path_tag
  /-- the tag that `drm_device_matches_tag` compares -/
  | tag
  /-- the copy of the last name that a tag is made of -/
  | name
  | device
  | devices
deriving DecidableEq

abbrev Calls := List (Call Resource)

/-! ## A lookup -/

section Lookup
variable (m : Machine ι) (dri_prime : Option QString) (a : Answers ι)

/-- The connection is asked for its error, and then for its set-up and the
screens. -/
def xcb_open : Calls × Bool :=
  let opened := [.acquire .connection, .use .connection]
  if !a.connects then (opened, false)
  else if a.screen_number < a.screens then (opened ++ [.use .connection], true)
  else (opened ++ [.use .connection, .release .connection], false)

/-- The root of the screen and the request are of the connection. The
descriptors come with the reply, and there is to be one. -/
def dri3_open : Calls × Option ι :=
  match a.dri3 with
  | none => ([.use .connection], none)
  | some fds =>
    let replied := [.use .connection, .acquire .reply] ++
      (List.range fds.length).map (fun k => .acquire (.fd k)) ++ [.use .reply]
    if fds.length ≠ 1 then (replied ++ [.release .reply], none)
    else (replied ++ [.use .connection, .use .reply, .release .reply, .use (.fd 0)], fds.head?)

/-- `drm_construct_id_path_tag` of a device of `owner`; the tag is to be kept
as `r`. -/
def constructCalls (owner r : Resource) (i : ι) : Calls :=
  match (m.device i).businfo with
  | .pci _ => [.use owner, .acquire r]
  | .platform _ | .host1x _ =>
    [.use owner, .acquire .name, .use .name, .acquire r, .release .name]
  | .usb _ _ => [.use owner]

/-- The tag is to be kept as `r`. -/
def drm_get_id_path_tag_for_fd (fd r : Resource) (known : Bool) (i : ι) :
    Calls × Option QString :=
  if !known then ([.use fd], none)
  else
    ([.use fd, .acquire .device] ++ constructCalls m .device r i ++ [.release .device],
      drm_construct_id_path_tag (m.device i).businfo)

/-- `drm_device_matches_tag` with the string kept as `r`. -/
def matchCalls (r : Resource) (i : ι) : Calls :=
  constructCalls m .devices .tag i ++
    if (drm_construct_id_path_tag (m.device i).businfo).isSome then
      [.use .tag, .use r, .release .tag]
    else []

/-- The loops that look for a device with a node. Its tag is to be this one,
kept as `r`, or any other. -/
def search (node : Device → Option DevNumber) (r : Resource) (tag : QString) (same : Bool) :
    List ι → Calls × Option ι
  | [] => ([], none)
  | i :: devices =>
    if (node (m.device i)).isSome then
      let tested := .use .devices :: matchCalls m r i
      if drm_device_matches_tag (m.device i) tag = same then (tested, some i)
      else
        let (calls, found) := search node r tag same devices
        (tested ++ calls, found)
    else
      let (calls, found) := search node r tag same devices
      (.use .devices :: calls, found)

/-- The path of a node is read from the list. -/
def nodeCalls (found : Option ι) : Calls := if found.isSome then [.use .devices] else []

/-- The descriptor to use, and the device it is of. -/
def get_user_preferred_fd (i : ι) : Calls × Resource × ι :=
  match dri_prime with
  | none => ([], .fd 0, i)
  | some prime =>
    let (calls, default_tag) :=
      drm_get_id_path_tag_for_fd m (.fd 0) .default_tag a.default_device i
    match default_tag with
    | none => ([.acquire .prime] ++ calls ++ [.release .prime], .fd 0, i)
    | some tag =>
      let freed := [.release .default_tag, .release .prime]
      match a.devices with
      | none => ([.acquire .prime] ++ calls ++ freed, .fd 0, i)
      | some devices =>
        let (searched, found) :=
          if prime = "1".toList then search m Device.render .default_tag tag false devices
          else search m Device.render .prime prime true devices
        let asked := [.acquire .prime] ++ calls ++ [.acquire .devices, .use .prime] ++ searched
        match found with
        | none => (asked ++ [.release .devices] ++ freed, .fd 0, i)
        | some j =>
          if a.opens then
            (asked ++ [.use .devices, .acquire .preferred, .release .devices,
              .release (.fd 0)] ++ freed, .preferred, j)
          else (asked ++ [.use .devices, .release .devices] ++ freed, .fd 0, i)

/-- From the connection to the descriptor in use. -/
def connect : Calls × Option (Resource × ι) :=
  let (calls, opened) := xcb_open a
  if !opened then (calls, none)
  else
    let (more, fd) := dri3_open a
    match fd with
    | none => (calls ++ more, none)
    | some i =>
      let (chosen, fd, i) := get_user_preferred_fd m dri_prime a i
      (calls ++ more ++ chosen, some (fd, i))

def drm_get_pci_id_for_fd (fd : Resource) (i : ι) : Calls × Option (UInt16 × UInt16) :=
  if a.device then
    ([.use fd, .acquire .device, .use .device, .release .device],
      match (m.device i).businfo with
      | .pci _ => some ((m.device i).vendor_id, (m.device i).device_id)
      | _ => none)
  else ([.use fd], none)

/-- `get_gpu_pci_info_xcb`; there is no such lookup for Wayland yet. -/
def get_gpu_pci_info : Calls × Option (UInt16 × UInt16) :=
  let (calls, chosen) := connect m dri_prime a
  match chosen with
  | none => (calls, none)
  | some (fd, i) =>
    let (more, ids) := drm_get_pci_id_for_fd m a fd i
    (calls ++ more ++ [.release fd, .release .connection], ids)

/-- The numbers of the nodes that could be read. -/
structure Numbers where
  primary : Option DevNumber := none
  render : Option DevNumber := none
deriving DecidableEq

/-- What `get_drm_device_node_number` does when it does not know all numbers. -/
def lookupNumbers : Calls × Numbers :=
  let (calls, chosen) := connect m dri_prime a
  match chosen with
  | none => (calls, {})
  | some (fd, i) =>
    let (asked, tag) := drm_get_id_path_tag_for_fd m fd .id_path_tag a.device i
    let calls := calls ++ [.release .connection] ++ asked
    match tag with
    | none => (calls ++ [.release fd], {})
    | some tag =>
      match a.nodes with
      | none => (calls ++ [.release .id_path_tag, .release fd], {})
      | some devices =>
        let (primaries, primary) := search m Device.primary .id_path_tag tag true devices
        let (renders, render) := search m Device.render .id_path_tag tag true devices
        (calls ++ [.acquire .devices] ++ primaries ++ nodeCalls primary ++ renders ++
            nodeCalls render ++ [.release .devices, .release .id_path_tag, .release fd],
          { primary := if a.statPrimary then primary.bind fun j => (m.device j).primary else none
            render := if a.statRender then render.bind fun j => (m.device j).render else none })

end Lookup

/-! ## What the manager keeps -/

structure Host (ι : Type) where
  gpuVendorId : Int := -1
  gpuChipId : Int := -1
  drmPrimaryNodeMajor : Int := -1
  drmPrimaryNodeMinor : Int := -1
  drmRenderNodeMajor : Int := -1
  drmRenderNodeMinor : Int := -1
  mGpuCheckCompleted : Bool := false
  mGpuVendor : GpuVendor := .UNKNOWN_VGA
  /-- what the lookups were told -/
  lookups : List (Answers ι) := []
  calls : List (Call (Nat × Resource)) := []
  /-- the numbers that `getDrmDeviceNodeNumber` has returned -/
  returned : List NodeNumbers := []
deriving DecidableEq

def get_gpu_vendor (vendor_id : Int) : GpuVendor :=
  if vendor_id = 0x1002 then .AMD_VGA
  else if vendor_id = 0x10de then .NVIDIA_VGA
  else if vendor_id = 0x8086 then .INTEL_VGA
  else .UNKNOWN_VGA

/-- The chips of the lists under `pci_ids` that are used. -/
structure ChipIds where
  i915 : List Int
  i965 : List Int
  iris : List Int
  r600 : List Int
  radeonsi : List Int
  amdgpu : List Int

/-- A lookup makes its calls. -/
def Host.ask (h : Host ι) (a : Answers ι) (calls : Calls) : Host ι :=
  { h with
    lookups := h.lookups ++ [a]
    calls := h.calls ++ calls.map (Call.map (Prod.mk h.lookups.length)) }

def Host.setIds (h : Host ι) : Option (UInt16 × UInt16) → Host ι
  | none => h
  | some (vendor_id, chip_id) =>
    { h with gpuVendorId := vendor_id.toNat, gpuChipId := chip_id.toNat }

def Host.setPrimary (h : Host ι) : Option DevNumber → Host ι
  | none => h
  | some n => { h with drmPrimaryNodeMajor := n.major, drmPrimaryNodeMinor := n.minor }

def Host.setRender (h : Host ι) : Option DevNumber → Host ι
  | none => h
  | some n => { h with drmRenderNodeMajor := n.major, drmRenderNodeMinor := n.minor }

def Host.hasNumbers (h : Host ι) : Bool :=
  h.drmPrimaryNodeMajor ≥ 0 && h.drmPrimaryNodeMinor ≥ 0 && h.drmRenderNodeMajor ≥ 0 &&
    h.drmRenderNodeMinor ≥ 0

section Calls
variable (m : Machine ι) (dri_prime : Option QString) (h : Host ι) (a : Answers ι)

def Host.getGpuVendorFromDrm : Host ι :=
  if h.mGpuCheckCompleted then h
  else if h.gpuVendorId ≠ -1 ∧ h.gpuChipId ≠ -1 then
    { h with mGpuVendor := get_gpu_vendor h.gpuVendorId, mGpuCheckCompleted := true }
  else
    let (calls, ids) := get_gpu_pci_info m dri_prime a
    let h := (h.ask a calls).setIds ids
    { h with
      mGpuVendor := if ids.isSome then get_gpu_vendor h.gpuVendorId else h.mGpuVendor
      mGpuCheckCompleted := true }

/-- How `preferI965`, `couldUsesDrmMode` and `couldUseIntelGralloc` begin. -/
def Host.needIds : Host ι :=
  if h.gpuVendorId = -1 ∨ h.gpuChipId = -1 then
    let (calls, ids) := get_gpu_pci_info m dri_prime a
    (h.ask a calls).setIds ids
  else h

def Host.get_drm_device_node_number : Host ι :=
  if h.hasNumbers then h
  else
    let (calls, numbers) := lookupNumbers m dri_prime a
    ((h.ask a calls).setPrimary numbers.primary).setRender numbers.render

def Host.getDrmDeviceNodeNumber : Host ι :=
  let h := h.get_drm_device_node_number m dri_prime a
  if !h.hasNumbers then h
  else if h.drmPrimaryNodeMajor = -1 ∨ h.drmPrimaryNodeMinor = -1 ∨ h.drmRenderNodeMajor = -1 ∨
      h.drmRenderNodeMinor = -1 then h
  else
    { h with
      returned := h.returned ++ [
        { primaryMajor := h.drmPrimaryNodeMajor
          primaryMinor := h.drmPrimaryNodeMinor
          renderMajor := h.drmRenderNodeMajor
          renderMinor := h.drmRenderNodeMinor }] }

end Calls

/-! What the functions return, once they have the ids. -/

def Host.hasIds (h : Host ι) : Bool := h.gpuVendorId ≠ -1 && h.gpuChipId ≠ -1

def Host.preferI965 (chips : ChipIds) (h : Host ι) : Bool :=
  h.hasIds && get_gpu_vendor h.gpuVendorId = .INTEL_VGA && chips.i965.contains h.gpuChipId

def ChipIds.check_chip_id_for_intel_gpu (chips : ChipIds) (chip_id : Int) : Bool :=
  chips.i915.contains chip_id || chips.i965.contains chip_id || chips.iris.contains chip_id

def ChipIds.check_chip_id_for_amd_gpu (chips : ChipIds) (chip_id : Int) : Bool :=
  chips.r600.contains chip_id || chips.radeonsi.contains chip_id || chips.amdgpu.contains chip_id

def Host.couldUsesDrmMode (chips : ChipIds) (h : Host ι) : Bool :=
  if !h.hasIds then false
  else if get_gpu_vendor h.gpuVendorId = .INTEL_VGA then
    chips.check_chip_id_for_intel_gpu h.gpuChipId
  else if get_gpu_vendor h.gpuVendorId = .AMD_VGA then chips.check_chip_id_for_amd_gpu h.gpuChipId
  else false

/-- `isIntelIrisGpu`, which does not keep the ids. -/
def isIntelIrisGpu (m : Machine ι) (dri_prime : Option QString) (chips : ChipIds)
    (a : Answers ι) : Bool :=
  match (get_gpu_pci_info m dri_prime a).2 with
  | some (vendor_id, chip_id) =>
    get_gpu_vendor vendor_id.toNat = .INTEL_VGA && chips.iris.contains (chip_id.toNat : Int)
  | none => false

inductive Action (ι : Type)
  | getGpuVendorFromDrm (a : Answers ι)
  | preferI965 (a : Answers ι)
  | isIntelIrisGpu (a : Answers ι)
  | couldUsesDrmMode (a : Answers ι)
  | couldUseIntelGralloc (a : Answers ι)
  | getDrmDeviceNodeNumber (a : Answers ι)
deriving DecidableEq

def step (m : Machine ι) (dri_prime : Option QString) (h : Host ι) : Action ι → Option (Host ι)
  | .getGpuVendorFromDrm a => some (h.getGpuVendorFromDrm m dri_prime a)
  | .preferI965 a | .couldUsesDrmMode a | .couldUseIntelGralloc a =>
    some (h.needIds m dri_prime a)
  | .isIntelIrisGpu a => some (h.ask a (get_gpu_pci_info m dri_prime a).1)
  | .getDrmDeviceNodeNumber a => some (h.getDrmDeviceNodeNumber m dri_prime a)

/-! ## Two cards -/

def cards (i : Bool) : Device :=
  if i then
    { businfo := .pci ⟨0, 0, 2, 0⟩, vendor_id := 0x8086, device_id := 0x9a49
      primary := some ⟨226, 0⟩, render := some ⟨226, 128⟩ }
  else
    { businfo := .pci ⟨0, 1, 0, 0⟩, vendor_id := 0x10de, device_id := 0x1f95
      primary := some ⟨226, 1⟩, render := some ⟨226, 129⟩ }

theorem cards_injective : ∀ i j, ((cards i).businfo = (cards j).businfo ∨
    (cards i).primary = (cards j).primary ∨ (cards i).render = (cards j).render) → i = j := by
  decide

def laptop : Machine (Bool) where
  device := cards
  place i j h := cards_injective i j (.inl h)
  name i j m n hi := by
    unfold cards at hi
    split at hi <;> simp at hi
  primary i j _ hi hj := cards_injective i j (.inr (.inl (hi.trans hj.symm)))
  render i j _ hi hj := cards_injective i j (.inr (.inr (hi.trans hj.symm)))

/-- Everything goes well, and the descriptor is of the first card. -/
def wellDone : Answers (Bool) where
  connects := true
  screen_number := 0
  screens := 1
  dri3 := some [true]
  default_device := true
  devices := some [true, false]
  opens := true
  device := true
  nodes := some [true, false]
  statPrimary := true
  statRender := true

end KmreManager.GpuInfo
