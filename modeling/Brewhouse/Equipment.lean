import Brewhouse.Exact.Binary

/-!
The brewing equipment: the two vessels whose temperature is read, the float switches and the loads behind
relays; the quantities that recipes, wire and controller share; and the thermal model, which makes targets
of setpoints.
-/

namespace Brewhouse

/-! ### Quantities -/

abbrev Celsius := Float32

abbrev Milliseconds := UInt32

abbrev Millilitres := UInt32

inductive Phase where
  | initialising
  | mashing
  | sparging
  deriving DecidableEq, Repr

/-- The word for a phase on status lines. -/
def Phase.name : Phase → String
  | .initialising => "INITIALIZING"
  | .mashing => "MASHING"
  | .sparging => "SPARGING"

/-! ### Vessels, switches and loads -/

inductive Vessel where
  /-- The hot liquor tank, which is heated. -/
  | hotLiquor
  /-- The mash tun with the grain bed. -/
  | mashTun
  deriving DecidableEq, Repr

def Vessel.name : Vessel → String
  | .hotLiquor => "HLT"
  | .mashTun => "mash tun"

/-- A float switch, which closes when the liquid reaches it. -/
inductive FloatSwitch where
  /-- In the mash tun; it governs the pump. -/
  | mashTun
  /-- In the kettle; it is reported only. -/
  | kettle
  deriving DecidableEq, Repr

inductive Load where
  | heater
  | pump
  deriving DecidableEq, Repr

def Load.name : Load → String
  | .heater => "heater"
  | .pump => "pump"

/-! ### The thermal model

Mash water loses heat to the grain, so while mashing the hot liquor tank is driven above the setpoint: the
more, the more of the vessel the mash water takes up. No target passes the ceiling. All arithmetic is in
single precision, in the order written here. -/

/-- The thermal properties of a brewery. -/
structure ThermalModel where
  /-- The volume of the hot liquor tank, in millilitres. -/
  vesselVolume : Float32
  /-- The heat lost between the hot liquor tank and the mash tun. -/
  heatLoss : Celsius
  /-- The ceiling of all targets. -/
  maxTarget : Celsius
  deriving DecidableEq

namespace ThermalModel

def standard : ThermalModel :=
  ⟨32000, 1, 79⟩

/-- The part of the vessel that the mash water takes up. -/
def dilution (m : ThermalModel) (mashWater : Millilitres) : Float32 :=
  mashWater.toFloat32 / m.vesselVolume

def cap (m : ThermalModel) (target : Celsius) : Celsius :=
  Exact.Single.least target m.maxTarget

/-- The target until the hot liquor tank first reaches it. -/
def rampUpTarget (m : ThermalModel) (setpoint : Celsius) (mashWater : Millilitres)
    (hlt : Celsius) : Celsius :=
  m.cap (setpoint + m.dilution mashWater * (setpoint - hlt))

/-- The target after that, which makes up for the mash tun lagging behind. -/
def offsetTarget (m : ThermalModel) (setpoint : Celsius) (mashWater : Millilitres)
    (mash : Celsius) : Celsius :=
  m.cap (setpoint + (m.dilution mashWater * (setpoint - mash) + m.heatLoss))

end ThermalModel

end Brewhouse
