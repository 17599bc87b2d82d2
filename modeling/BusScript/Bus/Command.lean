namespace BusScript

abbrev CommandCode := UInt16

namespace CommandCode

def getReg (register : UInt16) : CommandCode := register ||| 0x1000

def setReg (register : UInt16) : CommandCode := register ||| 0x2000

def event (code : UInt8) : CommandCode := 0x8000 ||| code.toUInt16

def isGet (code : CommandCode) : Bool := code.toNat / 4096 == 1

def isSet (code : CommandCode) : Bool := code.toNat / 4096 == 2

def isEvent (code : CommandCode) : Bool := code.toNat / 32768 == 1

def register (code : CommandCode) : Nat := code.toNat % 4096

def eventNumber (code : CommandCode) : Nat := code.toNat % 256

/-- The get code of the register that a set code writes. -/
def pairedGet (code : CommandCode) : CommandCode := (code &&& 0xdfff) ||| 0x1000

end CommandCode

def readingRegister : UInt16 := 0x101

/-- The register that says how many readings a sensor sends unasked. -/
def streamingSamplesRegister : UInt16 := 0x03

def maxPayload : Nat := 236

end BusScript
