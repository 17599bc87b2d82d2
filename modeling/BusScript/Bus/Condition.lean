import BusScript.Bus.Command

namespace BusScript.Condition

def classId : UInt32 := 0x1196796d

def signal : CommandCode := 0x80

def signalled : UInt8 := 0x01

end BusScript.Condition
