import CmeFeed.EventLoop
import CmeFeed.Reactive.Latest

/-!
# The configuration of the lines

A file lists connections by channel. The loader sorts them into the lines of
each channel, and a channel is made with a receiver on each. A receiver passes
the type of its connection on with a packet, so the file decides which of the
controllers gets the packets of a line.
-/

set_option autoImplicit false

namespace CmeFeed

open Reactive

variable {F : Floats}

/-- What the libraries make of texts: an address, for which they throw at other
texts, the address without a text, and a number. -/
structure Conversions where
  Address : Type
  from_string : String → Option Address
  unspecified : Address
  to_int : String → Option ℤ

inductive Ptree where
  | node (data : String) (children : List (String × Ptree))

namespace Ptree

def data : Ptree → String
  | .node data _ => data

def children : Ptree → List (String × Ptree)
  | .node _ children => children

def find (t : Ptree) (key : String) : Option Ptree :=
  (t.children.find? fun child => child.1 = key).map Prod.snd

def getChild : Ptree → List String → Option Ptree
  | t, [] => some t
  | t, key::path => (t.find key).bind fun child => child.getChild path

def getString (t : Ptree) (path : List String) (default : String) : String :=
  ((t.getChild path).map data).getD default

/-- The default stands for a text that is no number as well. -/
def getInt (C : Conversions) (t : Ptree) (path : List String) (default : ℤ) : ℤ :=
  ((t.getChild path).bind fun child => C.to_int child.data).getD default

end Ptree

inductive ConnectionType where
  | Snapshot | Incremental | Instrument | Other
  deriving DecidableEq, Repr

def FeedType.connectionType : FeedType → ConnectionType
  | .Snapshot => .Snapshot
  | .Incremental => .Incremental
  | .Instrument => .Instrument

def getType (type : String) : ConnectionType :=
  if type = "Instrument Replay" then .Instrument
  else if type = "Incremental" then .Incremental
  else if type = "Snapshot" then .Snapshot
  else .Other

def getFeed (feed : String) : Feed := if feed = "A" then .A else .B

variable (C : Conversions)

structure Connection where
  id : String
  type : ConnectionType
  feed : Feed
  host : C.Address
  port : ℤ

/-- A place for a connection; the port, the type and the feed are indeterminate
until one is put there. -/
abbrev Slot := Option (Connection C)

structure ChannelConfig where
  id : String := ""
  label : String := ""
  products : List String := []
  incremental : Feed → Slot C := fun _ => none
  snapshot : Feed → Slot C := fun _ => none
  instrument : Feed → Slot C := fun _ => none

structure Config where
  configs_ : String → Option (ChannelConfig C) := fun _ => none

variable {C}

namespace ChannelConfig

def addProduct (config : ChannelConfig C) (product : String) : ChannelConfig C :=
  {config with products := config.products++[product]}

def addConnection (config : ChannelConfig C) (connection : Connection C) : ChannelConfig C :=
  match connection.type with
  | .Incremental =>
    {config with incremental := Function.update config.incremental connection.feed connection}
  | .Snapshot =>
    {config with snapshot := Function.update config.snapshot connection.feed connection}
  | .Instrument =>
    {config with instrument := Function.update config.instrument connection.feed connection}
  | .Other => config

/-- A configuration that the map makes: the numbers are zero, and so is every
connection a snapshot connection of line A. -/
def zero : ChannelConfig C :=
  let connection : Connection C := ⟨"",.Snapshot,.A,C.unspecified,0⟩
  {incremental := fun _ => connection, snapshot := fun _ => connection
   instrument := fun _ => connection}

def slot (config : ChannelConfig C) : FeedType → Feed → Slot C
  | .Incremental => config.incremental
  | .Snapshot => config.snapshot
  | .Instrument => config.instrument

end ChannelConfig

namespace Config

def readConnection (t : Ptree) : Option (Connection C) :=
  (C.from_string (t.getString ["ip"] "")).map fun host =>
    {id := t.getString ["<xmlattr>","ip"] ""
     type := getType (t.getString ["type"] "")
     feed := getFeed (t.getString ["feed"] "")
     host := host
     port := t.getInt C ["port"] 0}

def loadConnection (config : ChannelConfig C) (connection : String × Ptree) :
    Option (ChannelConfig C) :=
  if connection.1 = "connection" then
    if getType (connection.2.getString ["type"] "") ≠ .Other then
      (readConnection connection.2).map config.addConnection
    else some config
  else some config

def loadProduct (config : ChannelConfig C) (product : String × Ptree) : ChannelConfig C :=
  if product.1 = "product" then
    config.addProduct (product.2.getString ["<xmlattr>","code"] "")
  else config

/-- One element of a channel; `get_child` throws if there is none. -/
def loadChannel (channel : Ptree) : Option (ChannelConfig C) :=
  let config : ChannelConfig C :=
    {id := channel.getString ["<xmlattr>","id"] ""
     label := channel.getString ["<xmlattr>","label"] ""}
  (channel.getChild ["products"]).bind fun products =>
    let config := products.children.foldl loadProduct config
    (channel.getChild ["connections"]).bind fun connections =>
      connections.children.foldlM loadConnection config

/-- `emplace` keeps a channel that is there. -/
def addChannel (configs : Config C) (channel : ChannelConfig C) : Config C :=
  match configs.configs_ channel.id with
  | some _ => configs
  | none => {configs with configs_ := Function.update configs.configs_ channel.id channel}

def loadElement (configs : Config C) (channel : String × Ptree) : Option (Config C) :=
  if channel.1 = "channel" then (loadChannel channel.2).map configs.addChannel else some configs

def load (pt : Ptree) : Option (Config C) :=
  (pt.getChild ["configuration"]).bind fun configuration =>
    configuration.children.foldlM loadElement {}

/-- The subscript of the map, which puts a channel there if there is none. -/
def subscript (configs : Config C) (channelid : String) : Config C × ChannelConfig C :=
  match configs.configs_ channelid with
  | some channel => (configs,channel)
  | none =>
    ({configs with configs_ := Function.update configs.configs_ channelid (some .zero)},.zero)

def getConnection (configs : Config C) (channelid : String) (type : ConnectionType)
    (feed : Feed) : Option (Config C × Slot C) :=
  match type with
  | .Incremental =>
    let r := configs.subscript channelid
    some (r.1,r.2.incremental feed)
  | .Snapshot =>
    let r := configs.subscript channelid
    some (r.1,r.2.snapshot feed)
  | .Instrument =>
    let r := configs.subscript channelid
    some (r.1,r.2.instrument feed)
  | .Other => none

def makeChannel (configs : Config C) (channelid : String) :
    Option (Config C × (FeedType → Feed → Slot C)) := do
  let incrementala ← configs.getConnection channelid .Incremental .A
  let incrementalb ← incrementala.1.getConnection channelid .Incremental .B
  let snapshota ← incrementalb.1.getConnection channelid .Snapshot .A
  let snapshotb ← snapshota.1.getConnection channelid .Snapshot .B
  let instrumenta ← snapshotb.1.getConnection channelid .Instrument .A
  let instrumentb ← instrumenta.1.getConnection channelid .Instrument .B
  some (instrumentb.1,fun type feed =>
    match type, feed with
    | .Incremental, .A => incrementala.2
    | .Incremental, .B => incrementalb.2
    | .Snapshot, .A => snapshota.2
    | .Snapshot, .B => snapshotb.2
    | .Instrument, .A => instrumenta.2
    | .Instrument, .B => instrumentb.2)

end Config

namespace Ptree

def IsChannel (channelid : String) (child : String × Ptree) : Prop :=
  child.1 = "channel" ∧ child.2.getString ["<xmlattr>","id"] "" = channelid

instance (channelid : String) (child : String × Ptree) : Decidable (IsChannel channelid child) :=
  inferInstanceAs (Decidable (_ ∧ _))

end Ptree

variable (C) in
def listed (child : String × Ptree) : List (Connection C) :=
  if child.1 = "connection" ∧ getType (child.2.getString ["type"] "") ≠ .Other then
    (Config.readConnection child.2).toList
  else []

variable (C) in
def Ptree.connections (channel : Ptree) : List (Connection C) :=
  (((channel.getChild ["connections"]).map Ptree.children).getD []).flatMap (listed C)

def Connection.IsFor (connection : Connection C) (type : FeedType) (feed : Feed) : Prop :=
  connection.type = type.connectionType ∧ connection.feed = feed

instance (connection : Connection C) (type : FeedType) (feed : Feed) :
    Decidable (connection.IsFor type feed) := inferInstanceAs (Decidable (_ ∧ _))

variable (C) in
def Ptree.lastListed (channel : Ptree) (type : FeedType) (feed : Feed) : Slot C :=
  ((channel.connections C).filter fun connection => connection.IsFor type feed).getLast?

def Ptree.firstChannel (pt : Ptree) (channelid : String) : Option Ptree :=
  ((pt.getChild ["configuration"]).bind fun configuration =>
    configuration.children.find? fun child => Ptree.IsChannel channelid child).map Prod.snd

namespace ChannelConfig

theorem addConnection_slot (config : ChannelConfig C) (connection : Connection C)
    (type : FeedType) (feed : Feed) : (config.addConnection connection).slot type feed =
      if connection.IsFor type feed then some connection else config.slot type feed := by
  obtain ⟨id,ctype,cfeed,host,port⟩ := connection
  unfold Connection.IsFor
  cases type <;> cases ctype <;> cases feed <;> cases cfeed <;> rfl

theorem addConnection_id (config : ChannelConfig C) (connection : Connection C) :
    (config.addConnection connection).id = config.id := by
  unfold addConnection
  cases connection.type <;> rfl

theorem addConnections_id (config : ChannelConfig C) (connections : List (Connection C)) :
    (connections.foldl addConnection config).id = config.id := by
  induction connections generalizing config with
  | nil => rfl
  | cons c cs ih => exact (ih _).trans (addConnection_id config c)

theorem addConnections_slot (config : ChannelConfig C) (connections : List (Connection C))
    (type : FeedType) (feed : Feed) : (connections.foldl addConnection config).slot type feed =
      (connections.filter fun c => c.IsFor type feed).getLast?.or (config.slot type feed) := by
  have hput : connections.filterMap (fun c => if c.IsFor type feed then some (some c) else none) =
      (connections.filter fun c => c.IsFor type feed).map some := by
    induction connections with
    | nil => rfl
    | cons c cs ih =>
      by_cases hc : c.IsFor type feed
      · simp [hc, ih]
      · simp [hc, ih]
  have hregister := foldl_register addConnection (fun config => config.slot type feed)
    (fun c => if c.IsFor type feed then some (some c) else none)
    (fun config c => by rw [addConnection_slot]; split_ifs <;> rfl) config connections
  rw [hregister, register, hput, List.getLast?_map]
  cases (connections.filter fun c => c.IsFor type feed).getLast? <;> rfl

theorem loadProducts_eq (config : ChannelConfig C) (products : List (String × Ptree)) :
    (products.foldl Config.loadProduct config).id = config.id ∧
      ∀ type feed, (products.foldl Config.loadProduct config).slot type feed =
        config.slot type feed := by
  induction products generalizing config with
  | nil => exact ⟨rfl,fun _ _ => rfl⟩
  | cons p ps ih =>
    have hone : (Config.loadProduct config p).id = config.id ∧
        ∀ type feed, (Config.loadProduct config p).slot type feed = config.slot type feed := by
      unfold Config.loadProduct
      split_ifs
      · exact ⟨rfl,fun type _ => by cases type <;> rfl⟩
      · exact ⟨rfl,fun _ _ => rfl⟩
    obtain ⟨hid,hslot⟩ := ih (Config.loadProduct config p)
    exact ⟨hid.trans hone.1,fun type feed => (hslot type feed).trans (hone.2 type feed)⟩

end ChannelConfig

namespace Config

theorem loadConnection_listed {config config' : ChannelConfig C} {connection : String × Ptree}
    (h : loadConnection config connection = some config') :
    config' = (listed C connection).foldl ChannelConfig.addConnection config := by
  unfold loadConnection at h
  unfold listed
  split_ifs at h with hkey htype
  · obtain ⟨c,hc,rfl⟩ := Option.map_eq_some_iff.mp h
    rw [if_pos ⟨hkey,htype⟩, hc]
    rfl
  · rw [if_neg fun hboth => hboth.2 (not_not.mp htype)]
    exact (Option.some.inj h).symm
  · rw [if_neg fun hboth => hkey hboth.1]
    exact (Option.some.inj h).symm

theorem loadChannel_spec {channel : Ptree} {config : ChannelConfig C}
    (h : loadChannel channel = some config) :
    config.id = channel.getString ["<xmlattr>","id"] "" ∧
      ∀ type feed, config.slot type feed = channel.lastListed C type feed := by
  unfold loadChannel at h
  obtain ⟨products,-,h⟩ := Option.bind_eq_some_iff.mp h
  obtain ⟨connections,hconnections,h⟩ := Option.bind_eq_some_iff.mp h
  obtain rfl := foldlM_listed (fun _ _ _ h => loadConnection_listed h) h
  obtain ⟨hid,hslot⟩ := ChannelConfig.loadProducts_eq _ products.children
  refine ⟨(ChannelConfig.addConnections_id _ _).trans hid,fun type feed => ?_⟩
  rw [ChannelConfig.addConnections_slot, hslot]
  unfold Ptree.lastListed Ptree.connections
  rw [hconnections]
  cases type <;> exact Option.or_none

theorem addChannel_find (configs : Config C) (channel : ChannelConfig C) (channelid : String) :
    (configs.addChannel channel).configs_ channelid =
      (configs.configs_ channelid).or (if channel.id = channelid then some channel else none) := by
  unfold addChannel
  by_cases hid : channel.id = channelid
  · subst hid
    rw [if_pos rfl]
    cases hfound : configs.configs_ channel.id with
    | some c => exact hfound
    | none => exact Function.update_self ..
  · rw [if_neg hid, Option.or_none]
    cases configs.configs_ channel.id with
    | some c => rfl
    | none => exact Function.update_of_ne (Ne.symm hid) ..

theorem loadElement_find {configs configs' : Config C} {child : String × Ptree}
    (h : loadElement configs child = some configs') (channelid : String) :
    configs'.configs_ channelid = (configs.configs_ channelid).or
      (if Ptree.IsChannel channelid child then loadChannel child.2 else none) := by
  unfold loadElement at h
  split_ifs at h with hkey
  · obtain ⟨config,hconfig,rfl⟩ := Option.map_eq_some_iff.mp h
    obtain ⟨hid,-⟩ := loadChannel_spec hconfig
    rw [addChannel_find, hconfig, hid]
    by_cases hchannel : child.2.getString ["<xmlattr>","id"] "" = channelid
    · rw [if_pos hchannel, if_pos ⟨hkey,hchannel⟩]
    · rw [if_neg hchannel, if_neg fun hboth => hchannel hboth.2]
  · obtain rfl := Option.some.inj h
    rw [if_neg fun hboth => hkey hboth.1, Option.or_none]

theorem loadElement_loads {configs configs' : Config C} {child : String × Ptree}
    (h : loadElement configs child = some configs') (hkey : child.1 = "channel") :
    ∃ config : ChannelConfig C, loadChannel child.2 = some config := by
  unfold loadElement at h
  rw [if_pos hkey] at h
  obtain ⟨config,hconfig,-⟩ := Option.map_eq_some_iff.mp h
  exact ⟨config,hconfig⟩

theorem loadElements_load {configs configs' : Config C} {children : List (String × Ptree)}
    (h : children.foldlM loadElement configs = some configs') :
    ∀ child ∈ children, child.1 = "channel" →
      ∃ config : ChannelConfig C, loadChannel child.2 = some config := by
  induction children generalizing configs with
  | nil => nofun
  | cons child children ih =>
    rw [List.foldlM_cons] at h
    obtain ⟨next,hstep,hrest⟩ := Option.bind_eq_some_iff.mp h
    intro other hother hkey
    rcases List.mem_cons.mp hother with rfl | hother
    · exact loadElement_loads hstep hkey
    · exact ih hrest other hother hkey

theorem loadElements_find {configs configs' : Config C} {children : List (String × Ptree)}
    (h : children.foldlM loadElement configs = some configs') (channelid : String) :
    configs'.configs_ channelid = (configs.configs_ channelid).or
      ((children.find? fun child => Ptree.IsChannel channelid child).bind fun child =>
        loadChannel child.2) := by
  induction children generalizing configs with
  | nil =>
    obtain rfl := Option.some.inj h
    exact (Option.or_none).symm
  | cons child children ih =>
    rw [List.foldlM_cons] at h
    obtain ⟨next,hstep,hrest⟩ := Option.bind_eq_some_iff.mp h
    rw [ih hrest, loadElement_find hstep, List.find?_cons]
    by_cases hchannel : Ptree.IsChannel channelid child
    · obtain ⟨config,hconfig⟩ := loadElement_loads hstep hchannel.1
      simp only [hchannel, if_true, hconfig, decide_true, Option.bind_some]
      cases configs.configs_ channelid <;> rfl
    · simp only [hchannel, if_false, Option.or_none, decide_false]

theorem load_find {pt : Ptree} {configs : Config C} (h : load pt = some configs)
    (channelid : String) :
    configs.configs_ channelid = (pt.firstChannel channelid).bind loadChannel ∧
      ∀ channel, pt.firstChannel channelid = some channel →
        ∃ config : ChannelConfig C, loadChannel channel = some config := by
  obtain ⟨configuration,hconfiguration,hchildren⟩ := Option.bind_eq_some_iff.mp h
  rw [loadElements_find hchildren, Ptree.firstChannel, hconfiguration, Option.bind_some,
    Option.bind_map]
  refine ⟨rfl,fun channel hfirst => ?_⟩
  obtain ⟨child,hfind,rfl⟩ := Option.map_eq_some_iff.mp hfirst
  have hchannel : Ptree.IsChannel channelid child := by simpa using List.find?_some hfind
  exact loadElements_load hchildren child (List.mem_of_find?_eq_some hfind) hchannel.1

theorem subscript_found (configs : Config C) (channelid : String) :
    (configs.subscript channelid).2 = (configs.configs_ channelid).getD .zero ∧
      (configs.subscript channelid).1.subscript channelid = configs.subscript channelid := by
  unfold subscript
  cases hfound : configs.configs_ channelid with
  | some channel => exact ⟨rfl,by dsimp only; rw [hfound]⟩
  | none => exact ⟨rfl,by dsimp only; rw [Function.update_self]⟩

theorem makeChannel_slots (configs : Config C) (channelid : String) :
    configs.makeChannel channelid = some ((configs.subscript channelid).1,
      ((configs.configs_ channelid).getD .zero).slot) := by
  obtain ⟨hfound,hagain⟩ := configs.subscript_found channelid
  have hslots : configs.makeChannel channelid = some ((configs.subscript channelid).1,
      fun type feed => (configs.subscript channelid).2.slot type feed) := by
    simp only [makeChannel, getConnection, bind, Option.bind, hagain]
    refine congrArg some (congrArg _ (funext fun type => funext fun feed => ?_))
    cases type <;> cases feed <;> rfl
  rw [hslots, hfound]

theorem makeChannel_listed {pt : Ptree} {configs : Config C} (h : load pt = some configs)
    {channelid : String} {channel : Ptree} (hfirst : pt.firstChannel channelid = some channel) :
    configs.makeChannel channelid =
      some ((configs.subscript channelid).1,channel.lastListed C) := by
  obtain ⟨hfind,hloads⟩ := load_find h channelid
  obtain ⟨config,hconfig⟩ := hloads channel hfirst
  have hslots : config.slot = channel.lastListed C := funext₂ (loadChannel_spec hconfig).2
  rw [configs.makeChannel_slots channelid, hfind, hfirst, Option.bind_some, hconfig,
    Option.getD_some, hslots]

/-- A channel is made from the first element of the file with its id, and the
receiver of each line from the last connection that this element lists for the
line. An id that the file does not have gives six snapshot connections of line
A, without an address. -/
theorem makeChannel_load (pt : Ptree) (configs : Config C) (h : load pt = some configs)
    (channelid : String) : ∃ configs' slots,
      configs.makeChannel channelid = some (configs',slots) ∧
      ∀ type feed, slots type feed = match pt.firstChannel channelid with
        | some channel => channel.lastListed C type feed
        | none => some ⟨"",.Snapshot,.A,C.unspecified,0⟩ := by
  cases hfirst : pt.firstChannel channelid with
  | some channel => exact ⟨_,_,makeChannel_listed h hfirst,fun _ _ => rfl⟩
  | none =>
    refine ⟨_,_,configs.makeChannel_slots channelid,fun type feed => ?_⟩
    rw [(load_find h channelid).1, hfirst]
    cases type <;> rfl

end Config

namespace ChannelImpl

/-- `OnPacket` with the type of a connection; there is no case for others. -/
def onConnectionPacket (ch : ChannelImpl F) (type : ConnectionType) (data : Packet) :
    ChannelImpl F :=
  match type with
  | .Instrument => ch.onPacket .Instrument data
  | .Snapshot => ch.onPacket .Snapshot data
  | .Incremental => ch.onPacket .Incremental data
  | .Other => ch

def connectedStep (connections : FeedType → Feed → Connection C) (ch : ChannelImpl F)
    (e : LoopEvent) : ChannelImpl F :=
  match e with
  | .handled type feed =>
    match (ch.receiver type feed).ready, (ch.receiver type feed).data_ with
    | _::rest, some data =>
      let ch := ch.withReceiver {ch.receiver type feed with ready := rest} type feed
      let ch := ch.onConnectionPacket (connections type feed).type data
      ch.withReceiver (ch.receiver type feed).async_receive_from type feed
    | _, _ => ch
  | e => (ch.loopStep e).1

theorem connectedStep_wired {connections : FeedType → Feed → Connection C}
    (h : ∀ type feed, (connections type feed).type = type.connectionType) (ch : ChannelImpl F)
    (e : LoopEvent) : ch.connectedStep connections e = (ch.loopStep e).1 := by
  have hdispatch : ∀ (t : ChannelImpl F) type feed data,
      t.onConnectionPacket (connections type feed).type data = t.onPacket type data := by
    intro t type feed data
    rw [h]
    cases type <;> rfl
  cases e with
  | datagram type feed d => rfl
  | aborted type feed => rfl
  | client c => rfl
  | handled type feed =>
    simp only [connectedStep, loopStep, handleReceiveFrom, hdispatch]
    cases (ch.receiver type feed).ready with
    | nil => rfl
    | cons d rest => cases (ch.receiver type feed).data_ <;> rfl

theorem run_connectedStep {connections : FeedType → Feed → Connection C}
    (h : ∀ type feed, (connections type feed).type = type.connectionType) (ch : ChannelImpl F)
    (events : List LoopEvent) :
    events.foldl (connectedStep connections) ch = (run loopStep ch events).1 := by
  induction events generalizing ch with
  | nil => rfl
  | cons e events ih => rw [List.foldl_cons, ih, connectedStep_wired h, run_cons]

end ChannelImpl

theorem Ptree.lastListed_isFor {channel : Ptree} {type : FeedType} {feed : Feed}
    (h : ∃ connection ∈ channel.connections C, connection.IsFor type feed) :
    ∃ connection, channel.lastListed C type feed = some connection ∧
      connection.IsFor type feed := by
  obtain ⟨listed,hmem,hfor⟩ := h
  have hlines : listed ∈ (channel.connections C).filter fun c => c.IsFor type feed :=
    List.mem_filter.mpr ⟨hmem,decide_eq_true hfor⟩
  obtain ⟨last,hlast⟩ : ∃ last, channel.lastListed C type feed = some last :=
    Option.ne_none_iff_exists'.mp fun hnone =>
      List.ne_nil_of_mem hlines (List.getLast?_eq_none_iff.mp hnone)
  have hkept := List.mem_filter.mp (List.mem_of_getLast? hlast)
  exact ⟨last,hlast,of_decide_eq_true hkept.2⟩

/-- If the file lists a connection for each line of a channel, then, in any order
and whatever else it lists, the packets of each line get to the controller of
its feed, in every run of the event loop. -/
theorem connected_lines (pt : Ptree) (configs : Config C) (h : Config.load pt = some configs)
    (channelid : String) (channel : Ptree) (hchannel : pt.firstChannel channelid = some channel)
    (hlines : ∀ type feed, ∃ connection ∈ channel.connections C, connection.IsFor type feed) :
    ∃ configs' slots, configs.makeChannel channelid = some (configs',slots) ∧
      ∀ (memory : FeedType → Feed → Connection C) (ch : ChannelImpl F)
        (events : List ChannelImpl.LoopEvent),
        events.foldl (ChannelImpl.connectedStep fun type feed =>
            (slots type feed).getD (memory type feed)) ch =
          (run ChannelImpl.loopStep ch events).1 := by
  refine ⟨_,_,Config.makeChannel_listed h hchannel,fun memory ch events => ?_⟩
  refine ChannelImpl.run_connectedStep (fun type feed => ?_) ch events
  obtain ⟨connection,hlast,hfor⟩ := Ptree.lastListed_isFor (hlines type feed)
  rw [hlast]
  exact hfor.1

def connectionElement (type feed : String) : String × Ptree :=
  ("connection",.node "" [("<xmlattr>",.node "" [("id",.node "310A" [])]),("type",.node type []),
    ("ip",.node "224.0.31.1" []),("port",.node "14310" []),("feed",.node feed [])])

def sampleFile : Ptree :=
  .node "" [("configuration",.node "" [("channel",.node "" [
    ("<xmlattr>",.node "" [("id",.node "310" []),("label",.node "E-mini" [])]),
    ("products",.node "" [("product",.node "" [("<xmlattr>",.node "" [("code",.node "ES" [])])])]),
    ("connections",.node "" [connectionElement "Historical Replay" "A",
      connectionElement "Incremental" "A",connectionElement "Incremental" "B",
      connectionElement "Instrument Replay" "A",connectionElement "Instrument Replay" "B",
      connectionElement "Snapshot" "A",connectionElement "Snapshot" "B"])])])]

def Conversions.texts : Conversions where
  Address := String
  from_string text := if text = "" then none else some text
  unspecified := "0.0.0.0"
  to_int := String.toInt?

theorem makeChannel_load_sample : ∃ configs configs' slots,
    Config.load sampleFile = some configs ∧
      configs.makeChannel "311" = some (configs',slots) ∧
      ∀ type feed, slots type feed =
        some (⟨"",.Snapshot,.A,"0.0.0.0",0⟩ : Connection Conversions.texts) := by
  obtain ⟨configs,hload⟩ : ∃ configs : Config .texts, Config.load sampleFile = some configs :=
    ⟨_,rfl⟩
  obtain ⟨configs',slots,hmake,hslots⟩ := Config.makeChannel_load sampleFile configs hload "311"
  exact ⟨configs,configs',slots,hload,hmake,hslots⟩

theorem connected_lines_sample : ∃ configs configs' slots,
    Config.load sampleFile = some configs ∧
      configs.makeChannel "310" = some (configs',slots) ∧
      ∀ events : List ChannelImpl.LoopEvent,
        events.foldl (ChannelImpl.connectedStep fun type feed =>
          (slots type feed).getD (⟨"",.Other,.A,"",0⟩ : Connection Conversions.texts))
            (.construct (F := .exact) fun _ => ⟨12,true⟩) =
          (run ChannelImpl.loopStep (.construct (F := .exact) fun _ => ⟨12,true⟩) events).1 := by
  obtain ⟨configs,hload⟩ : ∃ configs : Config .texts, Config.load sampleFile = some configs :=
    ⟨_,rfl⟩
  obtain ⟨configs',slots,hmake,hruns⟩ := connected_lines (F := .exact) sampleFile configs hload
    "310" _ rfl (by
      intro type feed
      cases type <;> cases feed <;> decide)
  exact ⟨configs,configs',slots,hload,hmake,
    fun events => hruns (fun _ _ => ⟨"",.Other,.A,"",0⟩) _ events⟩

end CmeFeed
