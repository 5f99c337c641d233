import YunbaIot.MqttPacket

/-! The user parameters of util.c, as they are loaded. -/
namespace YunbaIot.UserParameters
open MqttPacket

/- A string in its block of 54 bytes. -/
structure ParmString where
  string : CString
  fits : strlen string < 54
  deriving DecidableEq

/- A device id whose report fits into the 64 bytes of a queued message. -/
structure DeviceId where
  id : CString
  short : strlen id ≤ 37
  deriving DecidableEq

structure UserParm where
  appkey : ParmString
  deviceid : DeviceId
  aliasName : ParmString

def loadUserParm : UserParm where
  appkey := ⟨⟨[53,54,57,55,49,49,51,100,52,52,48,55,97,51,99,100,48,50,56,
    97,98,101,97,100],by simp⟩,by decide⟩
  deviceid := ⟨⟨[49,50,51,52,53,54,55,56,57,48],by simp⟩,by decide⟩
  aliasName := ⟨⟨[115,109,97,114,116,95,112,108,117,103,95,48],by simp⟩,by decide⟩

end YunbaIot.UserParameters
