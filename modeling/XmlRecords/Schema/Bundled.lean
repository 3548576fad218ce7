import XmlRecords.Schema.Bundled.ApexInfoList
import XmlRecords.Schema.Bundled.AudioPolicyConfiguration
import XmlRecords.Schema.Validity

/-!
The bundled schemas by name, in the order of their names.
-/

set_option autoImplicit false
set_option relaxedAutoImplicit false

namespace XmlRecords.Schema

def bundled : List (String × Json) := [
  ("apex_info_list", Bundled.apexInfoList),
  ("audio_policy_configuration_v7_0", Bundled.audioPolicyConfiguration)]

def bundledDefinition? (name : String) : Option Json := Json.member? bundled name

end XmlRecords.Schema
