import XmlRecords.Schema.Bundled.Builder

/-!
The schema of lists of installed APEX packages.
-/

set_option autoImplicit false
set_option relaxedAutoImplicit false

namespace XmlRecords.Schema.Bundled

def apexInfoList : Json :=
  definition "apex_info_list" "apex-info-list" "ApexInfoList"
    []
    [
      complexType "ApexInfoList" [] [manyElements "apex-info" "ApexInfo" 0] [],
      complexType "ApexInfo" [
        requiredAttribute "moduleName" "string",
        requiredAttribute "modulePath" "string",
        optionalAttribute "preinstalledModulePath" "string",
        requiredAttribute "versionCode" "int64",
        requiredAttribute "versionName" "string",
        requiredAttribute "isFactory" "bool",
        requiredAttribute "isActive" "bool",
        optionalAttribute "lastUpdateMillis" "int64",
        requiredAttribute "provideSharedApexLibs" "bool",
        requiredAttribute "partition" "string"] [] []]

end XmlRecords.Schema.Bundled
